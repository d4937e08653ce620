import SmallScheme.Proofs.Programs
import SmallScheme.Proofs.Store.Additions

namespace SmallScheme

/-!
# The library of a new session

Main result.  Under every limit of five levels or more, and whatever the host is, the root of the
new session binds each procedure of the library.  The library is one fixed text, and it is read as
definitions of different new names.  Evaluating a definition asks for nothing: it binds one name in
the root and keeps code, procedures and all other names.  So by induction on the forms each
definition is evaluated, and what it has made is still there in the end.
-/

/-! Definitions. -/

namespace Datum

/-- A form that binds a name to a transformer of one rule, which has no literals. -/
def rewriting
    (name : String)
    (keyword pattern template : Datum) : Datum :=
  .ofList
    [.symbol "define-syntax", .symbol name,
      .ofList [.symbol "syntax-rules", .nil, .ofList [.pair keyword pattern, template]]]

/-- The form binds the name to a procedure of one form or to a transformer of one rule. -/
inductive IsDefinition : Datum → String → Prop
  | procedure (name : String) {parameters : List String} (body : Datum) :
      parameters.Nodup → IsDefinition (.definition name parameters body) name
  | transformer (name : String) (keyword pattern template : Datum) :
      IsDefinition (.rewriting name keyword pattern template) name

def listedNames? : Datum → Option (List String)
  | .nil => some []
  | .pair (.symbol name) rest => (listedNames? rest).map (name :: ·)
  | _ => none

/-- The name, the parameters and the form of a procedure that a datum defines. -/
def definition? : Datum → Option (String × List String × Datum)
  | .pair (.symbol "define") (.pair (.pair (.symbol name) parameters) (.pair body .nil)) =>
      (listedNames? parameters).map fun names => (name, names, body)
  | _ => none

/-- The name of a transformer that a datum defines. -/
def rewriting? : Datum → Option String
  | .pair (.symbol "define-syntax")
      (.pair (.symbol name)
        (.pair
          (.pair (.symbol "syntax-rules")
            (.pair .nil (.pair (.pair (.pair _ _) (.pair _ .nil)) .nil)))
          .nil)) =>
      some name
  | _ => none

/-- The name that a datum defines. -/
def definedName? (form : Datum) : Option String :=
  match form.definition? with
  | some (name, parameters, _) => if parameters.Nodup then some name else none
  | none => form.rewriting?

/-- The names that the forms define, one by one. -/
def definedNames? : List Datum → Option (List String)
  | [] => some []
  | form :: rest =>
      match form.definedName?, definedNames? rest with
      | some name, some names => some (name :: names)
      | _, _ => none

variable
  {form body : Datum}
  {forms : List Datum}
  {name : String}
  {names parameters : List String}

/-- A list of names is recognised. -/
theorem listedNames?_names
    (parameters : List String) :
    (Datum.names parameters).listedNames? = some parameters := by
  induction parameters with
  | nil => rfl
  | cons name rest inductionHypothesis =>
      exact congrArg (Option.map (name :: ·)) inductionHypothesis

/-- What is recognised as a list of names is one. -/
theorem eq_names_of_listedNames?
    (listed : form.listedNames? = some parameters) :
    form = Datum.names parameters := by
  fun_induction listedNames? form generalizing parameters with
  | case1 =>
      cases listed
      rfl
  | case2 name rest inductionHypothesis =>
      obtain ⟨others, listedRest, rfl⟩ := Option.map_eq_some_iff.mp listed
      rw [inductionHypothesis listedRest]
      rfl
  | case3 => cases listed

/-- A list of names is code. -/
theorem isCode_names
    (parameters : List String) :
    (Datum.names parameters).isCode := by
  induction parameters with
  | nil => rfl
  | cons name rest inductionHypothesis => exact inductionHypothesis

/-- The definition of a procedure is recognised. -/
theorem definition?_definition
    (name : String)
    (parameters : List String)
    (body : Datum) :
    (definition name parameters body).definition? = some (name, parameters, body) :=
  congrArg (Option.map fun names => (name, names, body)) (listedNames?_names parameters)

/-- What is recognised as the definition of a procedure is one. -/
theorem eq_definition_of_definition?
    (defined : form.definition? = some (name, parameters, body)) :
    form = .definition name parameters body := by
  unfold definition? at defined
  split at defined
  · obtain ⟨names, listed, same⟩ := Option.map_eq_some_iff.mp defined
    cases same
    rw [eq_names_of_listedNames? listed]
    rfl
  · cases defined

/-- What is recognised as a definition is one. -/
theorem isDefinition_of_definedName?
    (defined : form.definedName? = some name) :
    form.IsDefinition name := by
  unfold definedName? at defined
  split at defined
  case h_1 procedure =>
    split at defined
    case isTrue distinct =>
      cases defined
      rw [eq_definition_of_definition? procedure]
      exact .procedure name _ distinct
    case isFalse => cases defined
  case h_2 =>
    unfold rewriting? at defined
    split at defined
    · cases defined
      exact .transformer name _ _ _
    · cases defined

/-- Forms that are recognised as definitions are definitions, one by one. -/
theorem isDefinition_of_definedNames?
    (defined : definedNames? forms = some names) :
    List.Forall₂ IsDefinition forms names := by
  induction forms generalizing names with
  | nil =>
      cases defined
      exact .nil
  | cons form rest inductionHypothesis =>
      unfold definedNames? at defined
      split at defined
      case h_1 first others =>
        cases defined
        exact .cons (isDefinition_of_definedName? first) (inductionHypothesis others)
      case h_2 => cases defined

end Datum

/-! What the root of a store provides. -/

namespace Store

variable
  {before between after store : Store}
  {name : String}
  {names parameters : List String}
  {body : Datum}
  {address : Nat}

/-- The root binds the name to the procedure at the address, which is written like this. -/
def Provides
    (store : Store)
    (name : String)
    (parameters : List String)
    (body : Datum)
    (address : Nat) : Prop :=
  (store.frameAt 0).find? name = some (.procedure address) ∧
    ∃ form called,
      store.procedures[address]? = some ⟨.fixed parameters, [form], ⟨0, []⟩, called⟩ ∧
        store.Writes body form

/-- What has no marks is defined so, in the root. -/
theorem Provides.defines
    (provides : store.Provides name parameters body address)
    (isCode : body.isCode) :
    store.Defines ⟨0, []⟩ address parameters body := by
  obtain ⟨-, form, called, found, writes⟩ := provides
  exact ⟨form, called, found, writes.encodes isCode⟩

/--
The second store has the code and the procedures of the first one, and what its root binds; it may
bind these names as well.
-/
structure BindsAlso (names : List String) (before after : Store) : Prop where
  keepsCode : before.KeepsCode after
  procedures :
    ∀ {address : Nat} {procedure : Procedure},
      before.procedures[address]? = some procedure → after.procedures[address]? = some procedure
  bound :
    ∀ {name : String} {value : Value},
      (before.frameAt 0).find? name = some value → (after.frameAt 0).find? name = some value
  others :
    ∀ {name : String},
      name ∉ names → (after.frameAt 0).find? name = (before.frameAt 0).find? name

namespace BindsAlso

theorem refl
    (store : Store) :
    BindsAlso [] store store :=
  ⟨⟨id, id⟩, id, id, fun _ => rfl⟩

/-- Bindings that are added one after the other are all there at last. -/
theorem trans
    {more : List String}
    (first : BindsAlso names before between)
    (second : BindsAlso more between after) :
    BindsAlso (names ++ more) before after where
  keepsCode := first.keepsCode.trans second.keepsCode
  procedures := second.procedures ∘ first.procedures
  bound := second.bound ∘ first.bound
  others other := by
    obtain ⟨notFirst, notSecond⟩ := not_or.mp (mt List.mem_append.mpr other)
    exact (second.others notSecond).trans (first.others notFirst)

/-- Objects are added, and then the root binds a new name. -/
theorem of_bind
    (before between : Store)
    (keepsCode : before.KeepsCode between)
    (procedures :
      ∀ {address : Nat} {procedure : Procedure},
        before.procedures[address]? = some procedure →
        between.procedures[address]? = some procedure)
    (frames : between.frames = before.frames)
    (inside : 0 < before.frames.size)
    (isNew : (before.frameAt 0).find? name = none)
    (value : Value) :
    BindsAlso [name] before (between.modifyFrame 0 (·.bind name value)) ∧
      ((between.modifyFrame 0 (·.bind name value)).frameAt 0).find? name = some value := by
  have found (other : String) :
      ((between.modifyFrame 0 (·.bind name value)).frameAt 0).find? other =
        if other = name then some value else (before.frameAt 0).find? other := by
    rw [frameAt_modifyFrame _ _ (frames ▸ inside), if_pos rfl, Frame.find?, Frame.bind,
      List.lookup_cons]
    by_cases same : other = name
    · simp [same]
    · rw [beq_false_of_ne same, if_neg same, frameAt, frames]
      rfl
  have keepsBinding :
      before.KeepsCode (between.modifyFrame 0 (·.bind name value)) :=
    ⟨keepsCode.pairs, keepsCode.marked⟩
  refine ⟨⟨keepsBinding, procedures, fun {other value} bound => ?_, fun {other} absent => ?_⟩, ?_⟩
  · have different : other ≠ name := by
      rintro rfl
      cases isNew.symm.trans bound
    rw [found, if_neg different]
    exact bound
  · rw [found, if_neg (List.ne_of_not_mem_cons absent)]
  · rw [found, if_pos rfl]

end BindsAlso

/-- A procedure is still provided when other names have been bound. -/
theorem Provides.kept
    (provides : before.Provides name parameters body address)
    (binds : BindsAlso names before after) :
    after.Provides name parameters body address := by
  obtain ⟨bound, form, called, found, writes⟩ := provides
  exact ⟨binds.bound bound, form, called, binds.procedures found, writes.kept binds.keepsCode⟩

/-- A list that is written into the store is a pair. -/
theorem Writes.exists_pair
    {first rest : Datum}
    {form : Value}
    (writes : store.Writes (.pair first rest) form) :
    ∃ address head tail, form = .pair address ∧ store.pairs[address]? = some ⟨head, tail⟩ := by
  cases writes with
  | code encodes =>
      cases encodes with
      | pair found => exact ⟨_, _, _, rfl, found⟩
  | pair found => exact ⟨_, _, _, rfl, found⟩

/-- The root finds what it binds. -/
theorem lookup?_root
    {value : Value}
    (bound : (store.frameAt 0).find? name = some value) :
    store.lookup? ⟨0, []⟩ name = some value := by
  simp only [lookup?, Scope.frames, lookupIn, bound]

end Store

/-! Transformers. -/

section Transformers

variable
  {store : Store}
  {keyword pattern template form : Value}
  {address : Nat}
  {scope : Scope}

/-- A rule is a list of a pattern, whose head is not looked at, and a template. -/
theorem Transformer.ruleOf_eq
    (spells : store.Spells form [.pair address, template] .nil)
    (found : store.pairs[address]? = some ⟨keyword, pattern⟩) :
    ruleOf form store = (.ok ⟨pattern, template⟩, store) := by
  refine StoreM.bind_eq_ok_iff.mpr ⟨_, _, Store.listItems_of_spells spells, ?_⟩
  refine StoreM.bind_eq_ok_iff.mpr ⟨some ⟨keyword, pattern⟩, store, ?_, rfl⟩
  exact congrArg (fun pair => (Except.ok pair, store)) found

/-- Without literals and with one rule a transformer is made of that rule. -/
theorem Transformer.ofOperands_rule
    (name : String)
    (scope : Scope)
    (spells : store.Spells form [.pair address, template] .nil)
    (found : store.pairs[address]? = some ⟨keyword, pattern⟩) :
    ofOperands name scope [.nil, form] store =
      (.ok (.transformer store.transformers.size),
        (store.newTransformer ⟨name, [], [⟨pattern, template⟩], scope⟩).2) := by
  have noLiterals : Store.listItems .nil store = (.ok [], store) :=
    Store.listItems_of_spells .nothing
  have rules : [form].mapM ruleOf store = (.ok [⟨pattern, template⟩], store) := by
    rw [List.mapM_cons, List.mapM_nil]
    exact StoreM.bind_eq_ok_iff.mpr ⟨_, _, ruleOf_eq spells found, rfl⟩
  refine StoreM.bind_eq_ok_iff.mpr ⟨_, _, noLiterals, ?_⟩
  refine StoreM.bind_eq_ok_iff.mpr ⟨[], store, rfl, ?_⟩
  exact StoreM.bind_eq_ok_iff.mpr ⟨_, _, rules, rfl⟩

/-- Defining a transformer makes it and binds a new name to it, whoever serves the requests. -/
theorem Special.run_transformerDefinition
    {serve : Request → Run Value}
    {handOver : Step → Run Step}
    {context : Context}
    {depth : Nat}
    {name : String}
    {rule : Value}
    (isNew : (store.frameAt scope.frame).find? name = none)
    (spells : store.Spells form [.symbol "syntax-rules", .nil, rule] .nil)
    (spellsRule : store.Spells rule [.pair address, template] .nil)
    (found : store.pairs[address]? = some ⟨keyword, pattern⟩) :
    (transformerDefinition scope [.symbol name, form]).run serve handOver ⟨store, context, depth⟩ =
      some
        (.ok (.value .unspecified),
          ⟨(store.newTransformer ⟨name, [], [⟨pattern, template⟩], scope⟩).2.modifyFrame
              scope.frame (·.bind name (.transformer store.transformers.size)),
            context, depth⟩) := by
  let after := (store.newTransformer ⟨name, [], [⟨pattern, template⟩], scope⟩).2
  have operands : transformerOperands? store form = some [.nil, rule] := by
    cases spells with
    | pair pair spells =>
        simp only [transformerOperands?, Store.pair?, pair, Store.listItems?_of_spells spells]
        rfl
  have made :
      (Script.perform (Transformer.ofOperands name scope [.nil, rule])).run serve handOver
          ⟨store, context, depth⟩ =
        some (.ok (.transformer store.transformers.size), ⟨after, context, depth⟩) :=
    Script.run_perform (Transformer.ofOperands_rule name scope spellsRule found)
  have looked :
      (Script.view fun store => transformerOperands? store form).run serve handOver
          ⟨store, context, depth⟩ =
        some (.ok (some [.nil, rule]), ⟨store, context, depth⟩) := by
    rw [← operands]
    rfl
  have isNewThere : (after.frameAt scope.frame).find? name = none := isNew
  refine (Script.run_bind looked _).trans ?_
  refine (Script.run_bind made _).trans ?_
  exact Script.run_bind (Script.run_perform (Store.define_of_isNew isNewThere _)) _

end Transformers

/-! Forms that are evaluated one after the other. -/

namespace Evaluation

variable
  {host : Host}
  {limit fuel depth : Nat}
  {scope : Scope}
  {before after : Store}
  {context : Context}
  {form : Value}
  {forms : List Value}

/--
Whoever serves its requests, evaluating the form in the first store leaves the second one and has no
value to answer.
-/
def Leaves
    (host : Host)
    (scope : Scope)
    (before : Store)
    (form : Value)
    (after : Store) : Prop :=
  ∀ {serve : Request → Run Value} {context : Context} {depth : Nat},
    (Evaluation.script host scope form).run serve Run.done ⟨before, context, depth⟩ =
      some (.ok (.value .unspecified), ⟨after, context, depth⟩)

/-- Evaluating the forms one after the other leads from the first store to the last one. -/
inductive LeavesInTurn (host : Host) (scope : Scope) : Store → List Value → Store → Prop
  | nothing (store : Store) : LeavesInTurn host scope store [] store
  | form {before between after : Store} {form : Value} {forms : List Value} :
      Leaves host scope before form between →
      LeavesInTurn host scope between forms after →
      LeavesInTurn host scope before (form :: forms) after

/-- The use of a special form leaves what the special form leaves with the operands. -/
theorem Leaves.of_use
    {keyword : SpecialForm}
    {name : String}
    (spells : before.Spells form (.symbol name :: forms) .nil)
    (ordinary : memberName? name = none)
    (found : before.lookup? scope name = some (.special keyword))
    (accepted : keyword.arity.refuses? forms.length = none)
    (leaves :
      ∀ {serve : Request → Run Value} {context : Context} {depth : Nat},
        (keyword.script host scope forms).run serve Run.done ⟨before, context, depth⟩ =
          some (.ok (.value .unspecified), ⟨after, context, depth⟩)) :
    Leaves host scope before form after :=
  (Application.run_use_of_spells spells ordinary found accepted).trans leaves

theorem Leaves.finish
    (leaves : Leaves host scope before form after) :
    Machine.serve host limit (fuel + 2) (.finish (.tail scope form)) ⟨before, context, depth⟩ =
      some (.ok .unspecified, ⟨after, context, depth⟩) := by
  rw [Machine.serve_finish]
  exact (Script.conclude_eq_ok_iff _).mpr ⟨_, _, leaves, Machine.serve_value _ _⟩

/-- A form that leaves a store is evaluated to nothing of interest. -/
theorem Leaves.serve
    (leaves : Leaves host scope before form after)
    (room : depth < limit) :
    Machine.serve host limit (fuel + 3) (.evaluate scope form) ⟨before, context, depth⟩ =
      some (.ok .unspecified, ⟨after, context, depth⟩) :=
  Machine.serve_evaluate room leaves.finish

/-- The same is true in tail position. -/
theorem Leaves.tail
    (leaves : Leaves host scope before form after)
    (room : depth < limit) :
    (Script.tail scope form).conclude .deferred (Machine.serve host limit (fuel + 3))
        ⟨before, context, depth⟩ =
      some (.ok .unspecified, ⟨after, context, depth⟩) := by
  have atOnce :
      (Script.evaluate scope form).run (Machine.serve host limit (fuel + 3)) Run.done
          ⟨before, context, depth⟩ =
        some (.ok .unspecified, ⟨after, context, depth⟩) :=
    (Script.run_evaluate scope form).trans (leaves.serve room)
  cases form with
  | pair | program => exact leaves.finish
  | _ => exact (Script.conclude_of_run_eq (Script.run_bind atOnce _)).trans rfl

/-- A body of such forms is concluded with the last store. -/
theorem LeavesInTurn.conclude_body
    (leaves : LeavesInTurn host scope before forms after)
    (room : depth < limit) :
    (Script.body scope forms).conclude .deferred (Machine.serve host limit (fuel + 3))
        ⟨before, context, depth⟩ =
      some (.ok .unspecified, ⟨after, context, depth⟩) := by
  induction leaves with
  | nothing store => rfl
  | @form before between after form rest leavesForm leavesRest inductionHypothesis =>
      cases rest with
      | nil =>
          cases leavesRest
          exact leavesForm.tail room
      | cons next others =>
          have evaluated :
              (Script.evaluate scope form).run (Machine.serve host limit (fuel + 3)) Run.done
                  ⟨before, context, depth⟩ =
                some (.ok .unspecified, ⟨between, context, depth⟩) :=
            (Script.run_evaluate scope form).trans (leavesForm.serve room)
          exact (Script.conclude_of_run_eq (Script.run_bind evaluated _)).trans inductionHypothesis

end Evaluation

namespace Library

open Evaluation (Leaves LeavesInTurn)

variable
  {host : Host}
  {store : Store}
  {datum : Datum}
  {data : List Datum}
  {name : String}
  {names : List String}
  {form : Value}
  {forms : List Value}

/-- The root offers what definitions are written with. -/
structure IsReady (store : Store) : Prop where
  definition : (store.frameAt 0).find? "define" = some (.special .definition)
  transformer : (store.frameAt 0).find? "define-syntax" = some (.special .transformerDefinition)

/-- The root provides each procedure that is defined by the form. -/
def ProvidesAll
    (store : Store)
    (form : Datum) : Prop :=
  ∀ {name : String} {parameters : List String} {body : Datum},
    form.definition? = some (name, parameters, body) →
    ∃ address, store.Provides name parameters body address

/-- A procedure is defined in the root. -/
theorem exists_leaves_definition
    {parameters : List String}
    {body : Datum}
    (distinct : parameters.Nodup)
    (isReady : IsReady store)
    (isNew : (store.frameAt 0).find? name = none)
    (writes : store.Writes (.definition name parameters body) form) :
    ∃ after,
      Leaves host ⟨0, []⟩ store form after ∧ store.BindsAlso [name] after ∧
        ∃ address, after.Provides name parameters body address := by
  obtain ⟨_, spells, _ | @⟨_, head, _, _, writesHead, _ | @⟨_, bodyForm, _, _, writesBody, ⟨⟩⟩⟩⟩ :=
    writes.use
  have encodesHead : store.Encodes (Datum.names (name :: parameters)) head :=
    writesHead.encodes (Datum.isCode_names _)
  obtain ⟨binds, bound⟩ :=
    Store.BindsAlso.of_bind store
      (store.newProcedure ⟨.fixed parameters, [bodyForm], ⟨0, []⟩, some name⟩).2 ⟨id, id⟩
      Store.getElem?_push_of_some rfl (Store.lt_size_of_find? isReady.definition) isNew
      (.procedure store.procedures.size)
  cases encodesHead with
  | pair pair encodesName encodesNames =>
      cases encodesName
      refine ⟨_, ?_, binds, _, bound, bodyForm, some name, Array.getElem?_push_size,
        writesBody.kept binds.keepsCode⟩
      exact Evaluation.Leaves.of_use spells (by decide) (Store.lookup?_root isReady.definition) rfl
        (Special.run_procedureDefinition isNew distinct pair encodesNames)

/-- A transformer is defined in the root. -/
theorem exists_leaves_rewriting
    {keyword pattern template : Datum}
    (isReady : IsReady store)
    (isNew : (store.frameAt 0).find? name = none)
    (writes : store.Writes (.rewriting name keyword pattern template) form) :
    ∃ after, Leaves host ⟨0, []⟩ store form after ∧ store.BindsAlso [name] after := by
  obtain ⟨_, spells, _ | ⟨writesName, _ | ⟨writesRules, ⟨⟩⟩⟩⟩ := writes.use
  cases writesName.encodes rfl
  obtain ⟨_, spellsRules, _ | ⟨writesLiterals, _ | ⟨writesRule, ⟨⟩⟩⟩⟩ := writesRules.use
  cases writesLiterals.encodes rfl
  obtain ⟨_, spellsRule, _ | ⟨writesPattern, _ | @⟨_, templateForm, _, _, _, ⟨⟩⟩⟩⟩ :=
    writesRule.spells
  obtain ⟨address, head, tail, rfl, pair⟩ := writesPattern.exists_pair
  obtain ⟨binds, -⟩ :=
    Store.BindsAlso.of_bind store
      (store.newTransformer ⟨name, [], [⟨tail, templateForm⟩], ⟨0, []⟩⟩).2 ⟨id, id⟩ id rfl
      (Store.lt_size_of_find? isReady.definition) isNew (.transformer store.transformers.size)
  refine ⟨_, ?_, binds⟩
  exact Evaluation.Leaves.of_use spells (by decide) (Store.lookup?_root isReady.transformer) rfl
    (Special.run_transformerDefinition isNew spellsRules spellsRule pair)

/-- A definition of a new name is evaluated in the root and binds that name only. -/
theorem exists_leaves
    (isDefinition : datum.IsDefinition name)
    (isReady : IsReady store)
    (isNew : (store.frameAt 0).find? name = none)
    (writes : store.Writes datum form) :
    ∃ after,
      Leaves host ⟨0, []⟩ store form after ∧ store.BindsAlso [name] after ∧
        ProvidesAll after datum := by
  cases isDefinition with
  | procedure name body distinct =>
      obtain ⟨after, leaves, binds, provides⟩ :=
        exists_leaves_definition distinct isReady isNew writes
      refine ⟨after, leaves, binds, fun {other names form} defined => ?_⟩
      cases (Datum.definition?_definition _ _ _).symm.trans defined
      exact provides
  | transformer name keyword pattern template =>
      obtain ⟨after, leaves, binds⟩ := exists_leaves_rewriting isReady isNew writes
      refine ⟨after, leaves, binds, fun {other names form} defined => ?_⟩
      cases defined

/-- The root is still ready when other names have been bound. -/
theorem IsReady.kept
    {after : Store}
    (isReady : IsReady store)
    (binds : store.BindsAlso names after) :
    IsReady after :=
  ⟨binds.bound isReady.definition, binds.bound isReady.transformer⟩

/-- Definitions of different new names are evaluated one after the other. -/
theorem exists_leavesInTurn
    (areDefinitions : List.Forall₂ Datum.IsDefinition data names)
    (distinct : names.Nodup)
    (isReady : IsReady store)
    (areNew : ∀ name ∈ names, (store.frameAt 0).find? name = none)
    (writes : List.Forall₂ store.Writes data forms) :
    ∃ after,
      LeavesInTurn host ⟨0, []⟩ store forms after ∧ store.BindsAlso names after ∧
        ∀ datum ∈ data, ProvidesAll after datum := by
  induction areDefinitions generalizing store forms with
  | nil =>
      cases writes
      exact ⟨store, .nothing store, .refl store, nofun⟩
  | @cons datum name rest others isDefinition _ inductionHypothesis =>
      obtain _ | ⟨writesForm, writesRest⟩ := writes
      obtain ⟨isNew, areNew⟩ := List.forall_mem_cons.mp areNew
      obtain ⟨isOther, distinct⟩ := List.nodup_cons.mp distinct
      obtain ⟨between, leaves, binds, provides⟩ :=
        exists_leaves isDefinition isReady isNew writesForm
      have stillNew : ∀ other ∈ others, (between.frameAt 0).find? other = none := by
        intro other member
        have different : other ∉ [name] :=
          mt List.mem_singleton.mp (ne_of_mem_of_not_mem member isOther)
        exact (binds.others different).trans (areNew other member)
      obtain ⟨after, leavesRest, bindsRest, providesRest⟩ :=
        inductionHypothesis distinct (isReady.kept binds) stillNew
          (writesRest.imp fun _ _ each => each.kept binds.keepsCode)
      refine ⟨after, .form leaves leavesRest, binds.trans bindsRest, ?_⟩
      refine List.forall_mem_cons.mpr ⟨fun defined => ?_, providesRest⟩
      obtain ⟨address, provided⟩ := provides defined
      exact ⟨address, provided.kept bindsRest⟩

/-! The text of the library. -/

/-- The characters of a joined text are known part by part. -/
theorem toList_append_of_eq
    {first second : String}
    {firstCharacters secondCharacters : List Char}
    (isFirst : first.toList = firstCharacters)
    (isSecond : second.toList = secondCharacters) :
    (first ++ second).toList = firstCharacters ++ secondCharacters := by
  rw [String.toList_append, isFirst, isSecond]

set_option maxRecDepth 20000 in
/-- The characters of the library one by one. -/
def spelled : { characters : List Char // text.toList = characters } :=
  ⟨_,
    toList_append_of_eq
      (toList_append_of_eq
        (toList_append_of_eq
          (toList_append_of_eq
            (toList_append_of_eq
              (String.toList_ofList : branches.toList = _)
              (String.toList_ofList : parts.toList = _))
            (String.toList_ofList : folds.toList = _))
          (String.toList_ofList : selections.toList = _))
        (String.toList_ofList : membership.toList = _))
      (String.toList_ofList : association.toList = _)⟩

/-- The characters are read as forms that pass the test. -/
def readsAs (characters : List Char) (test : List Datum → Bool) : Bool :=
  match @Reader.readForms .plain (characters.length + 1) characters with
  | .ok forms => test forms
  | .error _ => false

/-- The library is read, and its forms pass the test. -/
theorem exists_forms_of_readsAs
    {source : String}
    {characters : List Char}
    {test : List Datum → Bool}
    (isSource : source.toList = characters)
    (reads : readsAs characters test) :
    ∃ forms, @Reader.readAll .plain source = .ok forms ∧ test forms = true := by
  unfold readsAs at reads
  unfold Reader.readAll
  rw [isSource]
  cases read : @Reader.readForms .plain (characters.length + 1) characters with
  | error failure =>
      rw [read] at reads
      cases reads
  | ok forms =>
      rw [read] at reads
      refine ⟨forms, ?_, reads⟩
      dsimp only
      rw [read]

/-- The form is one of those that the library is read as. -/
def HasForm (form : Datum) : Prop :=
  ∃ forms, @Reader.readAll .plain text = .ok forms ∧ form ∈ forms

/-- The forms that are wanted are among those of the library. -/
theorem hasForm_of_readsAs
    {wanted : List Datum}
    (reads : readsAs spelled.val fun forms => wanted.all fun form => forms.any form.sameCode) :
    ∀ form ∈ wanted, HasForm form := by
  intro form isWanted
  obtain ⟨forms, read, found⟩ := exists_forms_of_readsAs spelled.property reads
  obtain ⟨other, member, same⟩ := List.any_eq_true.mp (List.all_eq_true.mp found form isWanted)
  exact ⟨forms, read, Datum.eq_of_sameCode same ▸ member⟩

/-- So many levels are enough for evaluating the library. -/
def levels : Nat := 5

/-- The forms are code and define different names, none of which the root binds to begin with. -/
def areDefinitions (forms : List Datum) : Bool :=
  forms.all Datum.isMarkedCode &&
    match Datum.definedNames? forms with
    | some names =>
        names.Nodup && names.all fun name => (Session.initialBindings.lookup name).isNone
    | none => false

/-- What the library is read as. -/
structure IsReadAs (forms : List Datum) (names : List String) : Prop where
  read : @Reader.readAll .plain text = .ok forms
  areCode : ∀ form ∈ forms, form.isMarkedCode
  areDefinitions : List.Forall₂ Datum.IsDefinition forms names
  distinct : names.Nodup
  areNew : ∀ name ∈ names, Session.initialBindings.lookup name = none

/-- The library is read as definitions of different names. -/
theorem exists_isReadAs :
    ∃ forms names, IsReadAs forms names := by
  have reads : readsAs spelled.val areDefinitions := by decide +kernel
  obtain ⟨forms, read, shown⟩ := exists_forms_of_readsAs spelled.property reads
  obtain ⟨areCode, shown⟩ := Bool.and_eq_true_iff.mp shown
  split at shown
  case h_1 names defined =>
    obtain ⟨distinct, areNew⟩ := Bool.and_eq_true_iff.mp shown
    refine ⟨forms, names, read, List.all_eq_true.mp areCode,
      Datum.isDefinition_of_definedNames? defined, of_decide_eq_true distinct, ?_⟩
    exact fun name member => Option.isNone_iff_eq_none.mp (List.all_eq_true.mp areNew name member)
  case h_2 => cases shown

end Library

namespace Session

/-- Nothing is nested in a bare session. -/
theorem depth_bare :
    bare.machine.depth = 0 := by
  have idle := @idle_start ⟨0, false, Host.absent⟩
  rw [start, if_neg Bool.false_ne_true] at idle
  generalize bare.machine = machine at idle ⊢
  exact congrArg Surroundings.depth idle

theorem evaluateTextInRoot_of_serves
    {settings : Settings}
    {session : Session}
    {source : String}
    {forms : List Datum}
    {value : Value}
    {last : Machine}
    (read : @Reader.readAll settings.host.engine source = .ok forms)
    (served :
      Machine.serve settings.host settings.limit Fuel.ample
          (.evaluate (session.load (.program forms)).2.root (session.load (.program forms)).1)
          (session.load (.program forms)).2.machine =
        some (.ok value, last)) :
    session.evaluateTextInRoot settings source =
      some (.ok value, { session with machine := last }) := by
  obtain ⟨root, user, store, context, depth⟩ := session
  simp only [evaluateTextInRoot, withProgram, read, evaluateInRoot, ask, load] at served ⊢
  rw [served]
  rfl

/-- What the forms of the library define is provided when they have been evaluated. -/
theorem provides_loadLibrary
    {settings : Settings}
    {session : Session}
    {forms : List Datum}
    {names : List String}
    (isReadAs : Library.IsReadAs forms names)
    (room : Library.levels ≤ settings.limit)
    (place : session.root = ⟨0, []⟩)
    (idle : session.machine.depth = 0)
    (binds : ∀ name, (session.store.frameAt 0).find? name = initialBindings.lookup name) :
    ∀ form ∈ forms, Library.ProvidesAll (session.loadLibrary settings).store form := by
  obtain ⟨root, user, store, context, depth⟩ := session
  obtain rfl : root = ⟨0, []⟩ := place
  obtain rfl : depth = 0 := idle
  obtain ⟨address, values, isProgram, hasForms, writes, grows⟩ :=
    store.writes_load_program isReadAs.areCode
  have bindsThere (name : String) :
      ((store.load (.program forms)).2.frameAt 0).find? name = initialBindings.lookup name := by
    rw [Store.frameAt, grows.frames]
    exact binds name
  have isReady : Library.IsReady (store.load (.program forms)).2 :=
    ⟨(bindsThere _).trans rfl, (bindsThere _).trans rfl⟩
  obtain ⟨after, leaves, -, provides⟩ :=
    @Library.exists_leavesInTurn Host.absent _ _ _ _ isReadAs.areDefinitions isReadAs.distinct
      isReady (fun name member => (bindsThere name).trans (isReadAs.areNew name member)) writes
  have levels : 2 ≤ settings.limit := le_trans (by decide) room
  have served :
      Machine.serve Host.absent settings.limit 5 (.evaluate ⟨0, []⟩ (.program address))
          ⟨(store.load (.program forms)).2, context, 0⟩ =
        some (.ok .unspecified, ⟨after, context, 0⟩) :=
    Machine.serve_program (by omega) hasForms (leaves.conclude_body levels)
  have ample : 5 ≤ Fuel.ample := by decide +kernel
  rw [← isProgram] at served
  have evaluated :=
    @evaluateTextInRoot_of_serves { settings with host := Host.absent }
      ⟨⟨0, []⟩, user, ⟨store, context, 0⟩⟩ _ _ _ _ isReadAs.read (Machine.serve_mono ample served)
  rw [loadLibrary, evaluated]
  exact provides

/-- A new session with the library has the procedures that the library defines. -/
theorem exists_provides
    {settings : Settings}
    (hasLibrary : settings.library = true)
    (room : Library.levels ≤ settings.limit)
    {name : String}
    {parameters : List String}
    {body : Datum}
    (hasForm : Library.HasForm (.definition name parameters body)) :
    ∃ address, (start settings).store.Provides name parameters body address := by
  obtain ⟨forms, names, isReadAs⟩ := Library.exists_isReadAs
  obtain ⟨others, read, member⟩ := hasForm
  cases isReadAs.read.symm.trans read
  rw [start, if_pos hasLibrary]
  exact provides_loadLibrary isReadAs room Rooted.bare.place depth_bare find?_bare _ member
    (Datum.definition?_definition name parameters body)

end Session

end SmallScheme
