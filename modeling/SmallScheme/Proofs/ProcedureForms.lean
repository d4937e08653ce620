import SmallScheme.Proofs.Formals
import SmallScheme.Proofs.TailPosition
import SmallScheme.Proofs.Transformer.Copy

namespace SmallScheme

/-!
# Forms that make procedures

Procedures of one form, as data: how they are written with and without a name, and what evaluating
them does to the store.  A handler that is installed around a procedure without parameters goes on
with the form of that procedure, one level further in.
-/

variable
  {host : Host}
  {limit fuel depth : Nat}
  {store : Store}
  {context : Context}
  {scope : Scope}
  {body : Datum}
  {form value : Value}
  {name : String}
  {parameters : List String}

namespace Datum

/-- A list of names. -/
def names (parameters : List String) : Datum :=
  .ofList (parameters.map .symbol)

/-- A form whose value is a procedure of one form. -/
def lambda
    (parameters : List String)
    (body : Datum) : Datum :=
  .ofList [.symbol "lambda", names parameters, body]

/-- A form that binds a name to a procedure of one form. -/
def definition
    (name : String)
    (parameters : List String)
    (body : Datum) : Datum :=
  .ofList [.symbol "define", names (name :: parameters), body]

/-- A form that evaluates the body of a procedure without parameters under a handler. -/
def handled
    (handler body : Datum) : Datum :=
  .ofList [.symbol "with-exception-handler", handler, lambda [] body]

end Datum

namespace Store

/-- Pairs and procedures of the first store are those of the second one, which may have more. -/
structure Retains (before after : Store) : Prop where
  pairs :
    ∀ {address : Nat} {pair : Pair},
      before.pairs[address]? = some pair → after.pairs[address]? = some pair
  procedures :
    ∀ {address : Nat} {procedure : Procedure},
      before.procedures[address]? = some procedure → after.procedures[address]? = some procedure

variable
  {before middle after : Store}

theorem Retains.refl
    (store : Store) :
    store.Retains store :=
  ⟨id, id⟩

theorem Retains.trans
    (first : before.Retains middle)
    (second : middle.Retains after) :
    before.Retains after :=
  ⟨fun found => second.pairs (first.pairs found),
    fun found => second.procedures (first.procedures found)⟩

theorem retains_newProcedure
    (procedure : Procedure)
    (store : Store) :
    store.Retains (store.newProcedure procedure).2 :=
  ⟨id, getElem?_push_of_some⟩

theorem Defines.retained
    {home : Scope}
    {address : Nat}
    (defines : before.Defines home address parameters body)
    (retains : before.Retains after) :
    after.Defines home address parameters body := by
  obtain ⟨form, called, found, encodes⟩ := defines
  exact ⟨form, called, retains.procedures found, encodes.mono retains.pairs⟩

/-- A list of names is spelled by the names. -/
theorem spells_of_names
    (encodes : store.Encodes (Datum.names parameters) form) :
    store.Spells form (parameters.map .symbol) .nil := by
  obtain ⟨forms, spells, encodesForms⟩ := encodes.spells
  have same : forms = parameters.map .symbol := by
    clear spells encodes
    induction parameters generalizing forms with
    | nil =>
        cases encodesForms
        rfl
    | cons name parameters inductionHypothesis =>
        obtain _ | ⟨⟨⟩, encodesForms⟩ := encodesForms
        rw [List.map_cons, inductionHypothesis _ encodesForms]
  exact same ▸ spells

end Store

namespace Formals

theorem map_identifier?_symbols
    (parameters : List String) :
    (parameters.map Value.symbol).map Value.identifier? = parameters.map some :=
  List.map_map

/-- Names that are all different are parameters. -/
theorem namesOf_names
    (store : Store)
    (distinct : parameters.Nodup) :
    namesOf store [] (parameters.map .symbol) = .ok parameters :=
  (namesOf_eq_ok_iff List.nodup_nil).mpr
    ⟨parameters, rfl, map_identifier?_symbols parameters, distinct⟩

theorem ofForm_names
    (encodes : store.Encodes (Datum.names parameters) form)
    (distinct : parameters.Nodup) :
    ofForm store form = .ok (.fixed parameters) :=
  ofForm_eq_of_described
    (.fixed (Store.spells_of_names encodes) (map_identifier?_symbols parameters) distinct)

end Formals

/-- Finding the parameters that names describe leaves the store as it is. -/
theorem Special.run_formalsOf
    {serve : Request → Run Value}
    {handOver : Step → Run Step}
    (encodes : store.Encodes (Datum.names parameters) form)
    (distinct : parameters.Nodup) :
    (formalsOf form).run serve handOver ⟨store, context, depth⟩ =
      some (.ok (.fixed parameters), ⟨store, context, depth⟩) :=
  Script.run_perform (congrArg (·, store) (Formals.ofForm_names encodes distinct))

/-- A name that is new in a scope is bound there. -/
theorem Store.define_of_isNew
    (isNew : (store.frameAt scope.frame).find? name = none)
    (value : Value) :
    Store.define scope name value store =
      (.ok (), store.modifyFrame scope.frame (·.bind name value)) := by
  simp only [Store.define, isNew]

/-- Defining a procedure makes it and binds a new name to it, whoever serves the requests. -/
theorem Special.run_procedureDefinition
    {serve : Request → Run Value}
    {handOver : Step → Run Step}
    {address : Nat}
    {names : Value}
    (isNew : (store.frameAt scope.frame).find? name = none)
    (distinct : parameters.Nodup)
    (pair : store.pairs[address]? = some ⟨.symbol name, names⟩)
    (encodes : store.Encodes (Datum.names parameters) names) :
    (definition scope [.pair address, form]).run serve handOver ⟨store, context, depth⟩ =
      some
        (.ok (.value .unspecified),
          ⟨(store.newProcedure ⟨.fixed parameters, [form], scope, some name⟩).2.modifyFrame
              scope.frame (·.bind name (.procedure store.procedures.size)),
            context, depth⟩) := by
  let after := (store.newProcedure ⟨.fixed parameters, [form], scope, some name⟩).2
  have looked :
      (Script.view fun store => store.pairAt address).run serve handOver ⟨store, context, depth⟩ =
        some (.ok ⟨.symbol name, names⟩, ⟨store, context, depth⟩) := by
    simp only [Script.view, Script.run, Store.pairAt_eq pair]
    rfl
  have made :
      (makeProcedure scope (some name) (.fixed parameters) [form]).run serve handOver
          ⟨store, context, depth⟩ =
        some (.ok (.procedure store.procedures.size), ⟨after, context, depth⟩) :=
    Script.run_perform rfl
  have isNewThere : (after.frameAt scope.frame).find? name = none := isNew
  refine (Script.run_bind looked _).trans ?_
  refine (Script.run_bind (run_formalsOf encodes distinct) _).trans ?_
  refine (Script.run_bind made _).trans ?_
  exact Script.run_bind (Script.run_perform (Store.define_of_isNew isNewThere _)) _

namespace Machine

/-- A special form that answers at once is evaluated to its answer. -/
theorem serve_use
    {keyword : SpecialForm}
    {address : Nat}
    {forms : List Value}
    {after : Store}
    (isUse :
      Application.IsUse host (serve host limit fuel) Run.done scope address keyword forms
        ⟨store, context, depth + 1⟩ ⟨store, context, depth + 1⟩)
    (accepted : keyword.arity.refuses? forms.length = none)
    (room : depth < limit)
    (enough : 1 ≤ fuel)
    (answers :
      (keyword.script host scope forms).run (serve host limit fuel) Run.done
          ⟨store, context, depth + 1⟩ =
        some (.ok (.value value), ⟨after, context, depth + 1⟩)) :
    serve host limit (fuel + 2) (.evaluate scope (.pair address)) ⟨store, context, depth⟩ =
      some (.ok value, ⟨after, context, depth⟩) := by
  obtain ⟨fuel, rfl⟩ : ∃ fewer, fuel = fewer + 1 := ⟨fuel - 1, by omega⟩
  refine serve_evaluate room ?_
  rw [serve_finish]
  have ran := (Application.run_use isUse accepted).trans answers
  exact (Script.conclude_eq_ok_iff _).mpr ⟨_, _, ran, serve_value _ _⟩

/-- A procedure is made in the scope in which its form is evaluated. -/
theorem serve_lambda
    (found : store.lookup? scope "lambda" = some (.special .procedure))
    (distinct : parameters.Nodup)
    (encodes : store.Encodes (Datum.lambda parameters body) form)
    (room : depth < limit)
    (enough : 3 ≤ fuel) :
    ∃ after,
      store.Retains after ∧ after.frames = store.frames ∧
        after.Defines scope store.procedures.size parameters body ∧
          serve host limit fuel (.evaluate scope form) ⟨store, context, depth⟩ =
            some (.ok (.procedure store.procedures.size), ⟨after, context, depth⟩) := by
  obtain ⟨fuel, rfl⟩ : ∃ fewer, fuel = fewer + 2 := ⟨fuel - 2, by omega⟩
  obtain ⟨address, forms, rfl, encodesForms, isUse⟩ :=
    Application.isUse_of_encodes encodes (by decide) found
  obtain _ | @⟨_, names, _, _, encodesNames, _ | @⟨_, form, _, _, encodesBody, ⟨⟩⟩⟩ := encodesForms
  refine ⟨(store.newProcedure ⟨.fixed parameters, [form], scope, none⟩).2,
    store.retains_newProcedure _, rfl,
    ⟨form, none, Array.getElem?_push_size, encodesBody.mono id⟩, ?_⟩
  refine serve_use isUse rfl room (by omega) ?_
  refine (Script.run_bind (Special.run_formalsOf encodesNames distinct) _).trans ?_
  rfl

/-- A definition binds a new name in its scope to a procedure. -/
theorem serve_definition
    (found : store.lookup? scope "define" = some (.special .definition))
    (isNew : (store.frameAt scope.frame).find? name = none)
    (distinct : parameters.Nodup)
    (encodes : store.Encodes (Datum.definition name parameters body) form)
    (room : depth < limit)
    (enough : 3 ≤ fuel) :
    ∃ after,
      store.Retains after ∧
        after.frames =
            store.frames.modify scope.frame (·.bind name (.procedure store.procedures.size)) ∧
        after.Defines scope store.procedures.size parameters body ∧
          serve host limit fuel (.evaluate scope form) ⟨store, context, depth⟩ =
            some (.ok .unspecified, ⟨after, context, depth⟩) := by
  obtain ⟨fuel, rfl⟩ : ∃ fewer, fuel = fewer + 2 := ⟨fuel - 2, by omega⟩
  obtain ⟨address, forms, rfl, encodesForms, isUse⟩ :=
    Application.isUse_of_encodes encodes (by decide) found
  obtain _ | ⟨encodesHead, _ | @⟨_, form, _, _, encodesBody, ⟨⟩⟩⟩ := encodesForms
  cases encodesHead with
  | @pair headAddress _ tail _ _ pair encodesName encodesNames =>
      cases encodesName
      let made := (store.newProcedure ⟨.fixed parameters, [form], scope, some name⟩).2
      let bound := made.modifyFrame scope.frame (·.bind name (.procedure store.procedures.size))
      have retains : store.Retains bound := ⟨id, Store.getElem?_push_of_some⟩
      refine ⟨bound, retains, rfl,
        ⟨form, some name, Array.getElem?_push_size, encodesBody.mono id⟩, ?_⟩
      exact serve_use isUse rfl room (by omega)
        (Special.run_procedureDefinition isNew distinct pair encodesNames)

/-- The body of the procedure under a handler is evaluated one level further in. -/
theorem Finds.of_handled
    {handlerBody : Datum}
    (foundForm : store.lookup? scope "with-exception-handler" = some (.special .handling))
    (foundLambda : store.lookup? scope "lambda" = some (.special .procedure))
    (distinct : parameters.Nodup)
    (room : depth < limit)
    (enough : 1 ≤ fuel)
    (goesOn :
      ∀ {after : Store} {handlers : List Value} {address : Nat},
        store.Retains after →
        after.frames = store.frames →
        after.Defines scope address [] body →
        (Application.apply host (.procedure address) []).Ends host limit fuel
          ⟨after, { context with handlers }, depth + 1⟩ value) :
    Finds host limit (fuel + 3) scope (Datum.handled (Datum.lambda parameters handlerBody) body)
      ⟨store, context, depth⟩ value := by
  refine Finds.of_use (by decide) foundForm rfl ?_
  intro forms encodes
  obtain _ | ⟨encodesHandler, _ | ⟨encodesThunk, ⟨⟩⟩⟩ := encodes
  have enoughFuel : 3 ≤ fuel + 2 := by omega
  obtain ⟨between, retains, frames, _, servedHandler⟩ :=
    serve_lambda foundLambda distinct encodesHandler room enoughFuel
  have foundThere : between.lookup? scope "lambda" = some (.special .procedure) :=
    (Store.lookup?_congr frames scope "lambda").trans foundLambda
  obtain ⟨after, retainsAfter, framesAfter, defines, servedThunk⟩ :=
    serve_lambda foundThere List.nodup_nil (encodesThunk.mono retains.pairs) room enoughFuel
  refine .of_bind ((Script.run_evaluate scope _).trans servedHandler) ?_
  refine .of_bind ((Script.run_evaluate scope _).trans servedThunk) ?_
  obtain ⟨last, concluded⟩ :=
    @goesOn after (.procedure store.procedures.size :: context.handlers) _
      (retains.trans retainsAfter) (framesAfter.trans frames) defines
  have called := serve_call room ((serve_finish _).trans concluded)
  refine ⟨last, (Script.conclude_eq_ok_iff _).mpr ⟨.value value, _, ?_, serve_value _ _⟩⟩
  simp only [Value.isProcedure, if_true, Special.withHandler, Script.switch,
    Script.attemptCall, bind, Script.bind, Script.run, Context.pushHandler, called]
  rfl

end Machine

end SmallScheme
