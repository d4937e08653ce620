import SmallScheme.Proofs.Serving
import SmallScheme.Proofs.Store.Binding

namespace SmallScheme

/-!
# Forms in tail position

Rules by which a form in tail position ends with a value.  What a construct hands over is finished
on the level of the construct, so none of the rules opens one; a rule takes one unit of fuel for the
form that it hands over.
-/

variable
  {host : Host}
  {limit fuel levels depth : Nat}
  {store : Store}
  {context : Context}
  {scope : Scope}
  {datum : Datum}
  {form value : Value}
  {name : String}

/-- A script is concluded as another one is if both run alike. -/
theorem Script.conclude_of_run_eq
    {serving : Request → Run Value}
    {script other : Script Step}
    {machine before : Machine}
    (same : script.run serving Run.done machine = other.run serving Run.done before) :
    script.conclude .deferred serving machine = other.conclude .deferred serving before := by
  simp only [conclude, Tails.handOver_deferred, same]

/-- The script and the step that it hands over end with the value; they may change the store. -/
def Script.Ends
    (host : Host)
    (limit fuel : Nat)
    (script : Script Step)
    (machine : Machine)
    (value : Value) : Prop :=
  ∃ last,
    script.conclude .deferred (Machine.serve host limit fuel) machine =
      some (.ok value, { machine with store := last })

/-- A script ends as what follows the answer that it has run to. -/
theorem Script.Ends.of_bind
    {Answer : Type}
    {script : Script Answer}
    {next : Answer → Script Step}
    {machine : Machine}
    {answer : Answer}
    (ran :
      script.run (Machine.serve host limit fuel) Run.done machine =
        some (.ok answer, { machine with store }))
    (ends : (next answer).Ends host limit fuel { machine with store } value) :
    (script.bind next).Ends host limit fuel machine value := by
  obtain ⟨last, concluded⟩ := ends
  exact ⟨last, (conclude_of_run_eq (run_bind ran next)).trans concluded⟩

/-- With more fuel a script ends as it did. -/
theorem Script.Ends.mono
    {more : Nat}
    {script : Script Step}
    {machine : Machine}
    (ends : script.Ends host limit fuel machine value)
    (le : fuel ≤ more) :
    script.Ends host limit more machine value := by
  obtain ⟨last, concluded⟩ := ends
  exact ⟨last, script.conclude_mono (fun _ _ _ => Machine.serve_mono le) concluded⟩

theorem Store.Means.run_evaluate
    {handOver : Step → Run Step}
    (means : store.Means host limit levels scope datum value)
    (encodes : store.Encodes datum form)
    (room : depth + levels ≤ limit)
    (enough : 2 * levels + 1 ≤ fuel) :
    (Script.evaluate scope form).run (Machine.serve host limit fuel) handOver
        ⟨store, context, depth⟩ =
      some (.ok value, ⟨store, context, depth⟩) :=
  (Script.run_evaluate scope form).trans (means encodes room enough)

theorem Store.Encodes.eq_symbol
    (encodes : store.Encodes datum form)
    (named : form.isNamed name = true) :
    datum = .symbol name := by
  cases encodes with
  | symbol => rw [← Option.some.inj (of_decide_eq_true named)]
  | _ => cases of_decide_eq_true named

/-- A list with an item has the parts that a clause needs. -/
theorem Special.run_clauseParts
    {serve : Request → Run Value}
    {handOver : Step → Run Step}
    (construct : String)
    {first : Datum}
    {rest : List Datum}
    (encodes : store.Encodes (.ofList (first :: rest)) form) :
    ∃ head forms,
      store.Encodes first head ∧
        List.Forall₂ store.Encodes rest forms ∧
          (clauseParts construct form).run serve handOver ⟨store, context, depth⟩ =
            some (.ok (head, forms), ⟨store, context, depth⟩) := by
  obtain ⟨_, spells, encodesParts⟩ := encodes.spells
  obtain _ | ⟨encodesFirst, encodesRest⟩ := encodesParts
  refine ⟨_, _, encodesFirst, encodesRest, ?_⟩
  simp only [clauseParts, bind, Script.view, Script.bind, Script.run,
    Store.listItems?_of_spells spells]
  rfl

/-! Procedures are entered with a frame of their own. -/

namespace Store

/-- The procedure at the address has the parameters and a form that stands for the body. -/
def Defines
    (store : Store)
    (home : Scope)
    (address : Nat)
    (parameters : List String)
    (body : Datum) : Prop :=
  ∃ form called,
    store.procedures[address]? = some ⟨.fixed parameters, [form], home, called⟩ ∧
      store.Encodes body form

end Store

/-- In tail position, whatever stands for the datum ends with the value. -/
def Machine.Finds
    (host : Host)
    (limit fuel : Nat)
    (scope : Scope)
    (datum : Datum)
    (machine : Machine)
    (value : Value) : Prop :=
  ∀ ⦃form : Value⦄,
    machine.store.Encodes datum form → (Script.tail scope form).Ends host limit fuel machine value

namespace Machine

theorem Finds.of_means
    (atomic : ∀ head tail, datum ≠ .pair head tail)
    (means : store.Means host limit levels scope datum value)
    (room : depth + levels ≤ limit)
    (enough : 2 * levels + 1 ≤ fuel) :
    Finds host limit fuel scope datum ⟨store, context, depth⟩ value := by
  intro form encodes
  obtain ⟨fuel, rfl⟩ : ∃ fewer, fuel = fewer + 1 := ⟨fuel - 1, by omega⟩
  have evaluated :
      (Script.tail scope form).run (serve host limit (fuel + 1)) Run.done ⟨store, context, depth⟩ =
        some (.ok (.value value), ⟨store, context, depth⟩) := by
    have atOnce :
        Script.tail scope form = (Script.evaluate scope form).bind fun value => .answer value := by
      cases encodes with
      | pair => exact (atomic _ _ rfl).elim
      | _ => rfl
    rw [atOnce, Script.run_bind (means.run_evaluate encodes room enough)]
    rfl
  exact ⟨store, (Script.conclude_eq_ok_iff _).mpr ⟨_, _, evaluated, serve_value _ _⟩⟩

/-- A list is handed over and finished on the same level. -/
theorem Finds.of_list
    {head tail : Datum}
    (found :
      ∀ {address : Nat},
        store.Encodes (.pair head tail) (.pair address) →
        (Evaluation.script host scope (.pair address)).Ends host limit fuel ⟨store, context, depth⟩
          value) :
    Finds host limit (fuel + 1) scope (.pair head tail) ⟨store, context, depth⟩ value := by
  intro form encodes
  cases encodes with
  | @pair address _ _ _ _ pair encodesHead encodesTail =>
      obtain ⟨last, concluded⟩ := found (.pair pair encodesHead encodesTail)
      refine ⟨last, (Script.conclude_eq_ok_iff _).mpr ⟨.tail scope (.pair address), _, rfl, ?_⟩⟩
      rw [serve_finish]
      exact concluded

/-- A special form is concluded with the forms that it is used on. -/
theorem Finds.of_use
    {keyword : SpecialForm}
    {operands : List Datum}
    (ordinary : memberName? name = none)
    (found : store.lookup? scope name = some (.special keyword))
    (accepted : keyword.arity.refuses? operands.length = none)
    (ends :
      ∀ {forms : List Value},
        List.Forall₂ store.Encodes operands forms →
        (keyword.script host scope forms).Ends host limit fuel ⟨store, context, depth⟩ value) :
    Finds host limit (fuel + 1) scope (.ofList (.symbol name :: operands)) ⟨store, context, depth⟩
      value := by
  refine Finds.of_list ?_
  intro address encodes
  obtain ⟨_, forms, ⟨⟩, encodesForms, isUse⟩ := Application.isUse_of_encodes encodes ordinary found
  obtain ⟨last, concluded⟩ := ends encodesForms
  have used := Application.run_use isUse (encodesForms.length_eq ▸ accepted)
  exact ⟨last, (Script.conclude_of_run_eq used).trans concluded⟩

/-- A choice is made on the value of its test and goes on with one of its branches. -/
theorem Finds.of_choice
    {test consequent alternative : Datum}
    {chosen : Bool}
    (found : store.lookup? scope "if" = some (.special .conditional))
    (means : store.Means host limit levels scope test (.boolean chosen))
    (room : depth + levels ≤ limit)
    (enough : 2 * levels + 1 ≤ fuel)
    (goesOn :
      Finds host limit fuel scope (if chosen then consequent else alternative)
        ⟨store, context, depth⟩ value) :
    Finds host limit (fuel + 1) scope (.ofList [.symbol "if", test, consequent, alternative])
      ⟨store, context, depth⟩ value := by
  refine Finds.of_use (by decide) found rfl ?_
  intro forms encodes
  obtain _ | ⟨encodesTest, _ | ⟨encodesConsequent, _ | ⟨encodesAlternative, ⟨⟩⟩⟩⟩ := encodes
  refine .of_bind (means.run_evaluate encodesTest room enough) ?_
  cases chosen with
  | true => exact goesOn encodesConsequent
  | false => exact goesOn encodesAlternative

/-- A conjunction of two forms whose first one is true goes on with the second one. -/
theorem Finds.of_conjunction
    {first second : Datum}
    (found : store.lookup? scope "and" = some (.special .conjunction))
    (means : store.Means host limit levels scope first (.boolean true))
    (room : depth + levels ≤ limit)
    (enough : 2 * levels + 1 ≤ fuel)
    (goesOn : Finds host limit fuel scope second ⟨store, context, depth⟩ value) :
    Finds host limit (fuel + 1) scope (.ofList [.symbol "and", first, second])
      ⟨store, context, depth⟩ value := by
  refine Finds.of_use (by decide) found rfl ?_
  intro forms encodes
  obtain _ | ⟨encodesFirst, _ | ⟨encodesSecond, ⟨⟩⟩⟩ := encodes
  refine .of_bind (means.run_evaluate encodesFirst room enough) ?_
  exact goesOn encodesSecond

/-- A conjunction whose first form is false is false. -/
theorem Finds.of_false_conjunction
    {first second : Datum}
    (found : store.lookup? scope "and" = some (.special .conjunction))
    (means : store.Means host limit levels scope first (.boolean false))
    (room : depth + levels ≤ limit)
    (enough : 2 * levels + 1 ≤ fuel) :
    Finds host limit (fuel + 1) scope (.ofList [.symbol "and", first, second])
      ⟨store, context, depth⟩ (.boolean false) := by
  refine Finds.of_use (by decide) found rfl ?_
  intro forms encodes
  obtain _ | ⟨encodesFirst, _ | ⟨encodesSecond, ⟨⟩⟩⟩ := encodes
  refine .of_bind (means.run_evaluate encodesFirst room enough) ?_
  obtain ⟨fuel, rfl⟩ : ∃ fewer, fuel = fewer + 1 := ⟨fuel - 1, by omega⟩
  exact ⟨store, rfl⟩

/-- A clause whose test is true goes on with its form. -/
theorem clauses_ends_of_true
    {test result : Datum}
    {clause : Value}
    {rest : List Value}
    (isTest : test ≠ .symbol "else")
    (isForm : result ≠ .symbol "=>")
    (encodes : store.Encodes (.ofList [test, result]) clause)
    (means : store.Means host limit levels scope test (.boolean true))
    (room : depth + levels ≤ limit)
    (enough : 2 * levels + 1 ≤ fuel)
    (goesOn : Finds host limit fuel scope result ⟨store, context, depth⟩ value) :
    (Special.clauses scope (clause :: rest)).Ends host limit fuel ⟨store, context, depth⟩
      value := by
  obtain ⟨testForm, forms, encodesTest, encodesForms, parts⟩ :=
    Special.run_clauseParts "cond" encodes
  obtain _ | ⟨encodesResult, ⟨⟩⟩ := encodesForms
  refine .of_bind parts ?_
  have ordinary : testForm.isNamed "else" = false :=
    Bool.eq_false_iff.mpr fun named => isTest (encodesTest.eq_symbol named)
  dsimp only
  rw [ordinary, if_neg Bool.false_ne_true]
  refine .of_bind (means.run_evaluate encodesTest room enough) ?_
  have noArrow := Bool.eq_false_iff.mpr fun named => isForm (encodesResult.eq_symbol named)
  simp only [Value.isTrue, if_true, Special.clauseResult, Special.startsWithArrow, noArrow]
  exact goesOn encodesResult

/-- A clause whose test is false is passed over. -/
theorem clauses_ends_of_false
    {test result : Datum}
    {clause : Value}
    {rest : List Value}
    (isTest : test ≠ .symbol "else")
    (encodes : store.Encodes (.ofList [test, result]) clause)
    (means : store.Means host limit levels scope test (.boolean false))
    (room : depth + levels ≤ limit)
    (enough : 2 * levels + 1 ≤ fuel)
    (goesOn : (Special.clauses scope rest).Ends host limit fuel ⟨store, context, depth⟩ value) :
    (Special.clauses scope (clause :: rest)).Ends host limit fuel ⟨store, context, depth⟩
      value := by
  obtain ⟨testForm, forms, encodesTest, _, parts⟩ := Special.run_clauseParts "cond" encodes
  refine .of_bind parts ?_
  have ordinary : testForm.isNamed "else" = false :=
    Bool.eq_false_iff.mpr fun named => isTest (encodesTest.eq_symbol named)
  dsimp only
  rw [ordinary, if_neg Bool.false_ne_true]
  exact .of_bind (means.run_evaluate encodesTest room enough) goesOn

/-- The last clause needs no test. -/
theorem clauses_ends_of_else
    {result : Datum}
    {clause : Value}
    (encodes : store.Encodes (.ofList [.symbol "else", result]) clause)
    (goesOn : Finds host limit fuel scope result ⟨store, context, depth⟩ value) :
    (Special.clauses scope [clause]).Ends host limit fuel ⟨store, context, depth⟩ value := by
  obtain ⟨elseForm, forms, encodesElse, encodesForms, parts⟩ :=
    Special.run_clauseParts "cond" encodes
  cases encodesElse
  obtain _ | ⟨encodesResult, ⟨⟩⟩ := encodesForms
  exact .of_bind parts (goesOn encodesResult)

/-- The first of two clauses is chosen if its test is true, and otherwise the last one. -/
theorem Finds.of_clauses
    {test first second : Datum}
    {chosen : Bool}
    (found : store.lookup? scope "cond" = some (.special .clauses))
    (isTest : test ≠ .symbol "else")
    (isForm : first ≠ .symbol "=>")
    (means : store.Means host limit levels scope test (.boolean chosen))
    (room : depth + levels ≤ limit)
    (enough : 2 * levels + 1 ≤ fuel)
    (goesOn :
      Finds host limit fuel scope (if chosen then first else second) ⟨store, context, depth⟩
        value) :
    Finds host limit (fuel + 1) scope
      (.ofList
        [.symbol "cond", .ofList [test, first], .ofList [.symbol "else", second]])
      ⟨store, context, depth⟩ value := by
  refine Finds.of_use (by decide) found rfl ?_
  intro forms encodes
  obtain _ | ⟨encodesClause, _ | ⟨encodesLast, ⟨⟩⟩⟩ := encodes
  cases chosen with
  | true => exact clauses_ends_of_true isTest isForm encodesClause means room enough goesOn
  | false =>
      exact clauses_ends_of_false isTest encodesClause means room enough
        (clauses_ends_of_else encodesLast goesOn)

/-- A call is finished as the application of what its head means to the values of its operands. -/
theorem Finds.of_call
    {callee : Value}
    {operands : List Datum}
    {values : List Value}
    (ordinary : memberName? name = none)
    (found : store.lookup? scope name = some callee)
    (applied : Application.takesForms callee = false)
    (means : List.Forall₂ (store.Means host limit levels scope) operands values)
    (room : depth + levels ≤ limit)
    (enough : 2 * levels + 1 ≤ fuel)
    (goesOn :
      (Application.apply host callee values).Ends host limit fuel ⟨store, context, depth⟩ value) :
    Finds host limit (fuel + 1) scope (.ofList (.symbol name :: operands)) ⟨store, context, depth⟩
      value := by
  refine Finds.of_list ?_
  intro address encodes
  obtain ⟨_, ⟨⟩, isCall⟩ :=
    Application.isCall_of_encodes encodes ordinary found applied means room enough
  obtain ⟨last, concluded⟩ := goesOn
  obtain ⟨step, middle, ran, served⟩ := (Script.conclude_eq_ok_iff _).mp concluded
  have called := Application.run_eq_locate isCall ran
  exact ⟨last, (Script.conclude_eq_ok_iff _).mpr ⟨step, middle, called, served⟩⟩

/-- A procedure of one form is entered: its form is evaluated next, in a frame of its own. -/
theorem run_apply
    {serving : Request → Run Value}
    {address : Nat}
    {names : List String}
    {operands : List Value}
    {home : Scope}
    {called : Option String}
    (found : store.procedures[address]? = some ⟨.fixed names, [form], home, called⟩)
    (distinct : names.Nodup)
    (fits : operands.length = names.length) :
    (Application.apply host (.procedure address) operands).run serving Run.done
        ⟨store, context, depth⟩ =
      (Script.tail ⟨store.frames.size, home.frames⟩ form).run serving Run.done
        ⟨store.withFrame ⟨(names.zip operands).reverse, store.namespaces home⟩,
            context, depth⟩ := by
  have entered :
      (Script.perform (StoreM.change (Store.newChild home))).run serving Run.done
          ⟨store, context, depth⟩ =
        some (.ok ⟨store.frames.size, home.frames⟩,
          ⟨store.withFrame ⟨[], store.namespaces home⟩, context, depth⟩) :=
    Script.run_perform rfl
  have bound :
      Store.bindFormals ⟨.fixed names, [form], home, called⟩ ⟨store.frames.size, home.frames⟩
          operands (store.withFrame ⟨[], store.namespaces home⟩) =
        (.ok (),
          store.withFrame ⟨(names.zip operands).reverse, store.namespaces home⟩) := by
    simp only [Store.bindFormals, if_pos fits]
    exact store.defineAll_zip home distinct fits.ge
  have looked :
      (Script.view fun store => store.procedures[address]?.getD default).run serving Run.done
          ⟨store, context, depth⟩ =
        some (.ok ⟨.fixed names, [form], home, called⟩, ⟨store, context, depth⟩) := by
    simp only [Script.view, Script.run, found]
    rfl
  refine (Script.run_bind looked _).trans ((Script.run_bind entered _).trans ?_)
  exact Script.run_bind (Script.run_perform bound) _

/-- A procedure of one form goes on with the form. -/
theorem apply_ends
    {address : Nat}
    {names : List String}
    {operands : List Value}
    {home : Scope}
    (defines : store.Defines home address names datum)
    (distinct : names.Nodup)
    (fits : operands.length = names.length)
    (goesOn :
      Finds host limit fuel ⟨store.frames.size, home.frames⟩ datum
        ⟨store.withFrame ⟨(names.zip operands).reverse, store.namespaces home⟩, context, depth⟩
        value) :
    (Application.apply host (.procedure address) operands).Ends host limit fuel
      ⟨store, context, depth⟩ value := by
  obtain ⟨form, called, found, encodes⟩ := defines
  obtain ⟨last, concluded⟩ := goesOn (encodes.mono id)
  exact ⟨last, (Script.conclude_of_run_eq (run_apply found distinct fits)).trans concluded⟩

end Machine

end SmallScheme
