import SmallScheme.Proofs.Application
import SmallScheme.Proofs.RelatedLists
import SmallScheme.Proofs.Store.Loading
import SmallScheme.Proofs.Unlimited

namespace SmallScheme

/-!
# Serving requests with enough fuel

Rules by which the value of a form is found without running the machine step by step.  A form means
a value in a store if evaluating it ends with the value and changes nothing, wherever so many levels
of nesting are left; two units of fuel for each level and one more are enough.  Names and constants
mean values on one level, and the use of a primitive needs one more than its operands.
-/

variable
  {host : Host}
  {limit fuel levels depth : Nat}
  {store after : Store}
  {context later : Context}
  {scope : Scope}
  {datum : Datum}
  {form value : Value}
  {name : String}

@[simp]
theorem Tails.handOver_deferred
    (finish : Step → Run Value) :
    Tails.deferred.handOver finish = Run.done :=
  rfl

namespace Script

variable
  {serving : Request → Run Value}
  {script : Script Step}
  {machine last : Machine}

/-- To conclude a script with a value is to run it and to finish the step that it comes to. -/
theorem conclude_eq_ok_iff
    (script : Script Step) :
    script.conclude .deferred serving machine = some (.ok value, last) ↔
      ∃ step middle,
        script.run serving Run.done machine = some (.ok step, middle) ∧
          serving (.finish step) middle = some (.ok value, last) := by
  simp only [conclude, Tails.handOver_deferred]
  rcases script.run serving Run.done machine with _ | ⟨reason | step, middle⟩ <;>
    simp [Run.unwind]

end Script

namespace Machine

/-- Evaluating a form opens a level, finishes the form there and closes the level. -/
theorem serve_evaluate
    {result : Except Unwind Value}
    (room : depth < limit)
    (finished :
      serve host limit fuel (.finish (.tail scope form)) ⟨store, context, depth + 1⟩ =
        some (result, ⟨after, later, depth + 1⟩)) :
    serve host limit (fuel + 1) (.evaluate scope form) ⟨store, context, depth⟩ =
      some (result, ⟨after, later, depth⟩) := by
  simp only [serve, Run.nested, if_neg (Nat.not_le_of_lt room), finished, Nat.add_sub_cancel]

/-- Calling a procedure opens a level, finishes the application there and closes the level. -/
theorem serve_call
    {callee : Value}
    {operands : List Value}
    {result : Except Unwind Value}
    (room : depth < limit)
    (finished :
      serve host limit fuel (.finish (.apply callee operands)) ⟨store, context, depth + 1⟩ =
        some (result, ⟨after, later, depth + 1⟩)) :
    serve host limit (fuel + 1) (.call callee operands) ⟨store, context, depth⟩ =
      some (result, ⟨after, later, depth⟩) := by
  simp only [serve, Run.nested, if_neg (Nat.not_le_of_lt room), finished, Nat.add_sub_cancel]

/-- With more fuel a request is served as it was. -/
theorem serve_mono
    {more : Nat}
    {request : Request}
    {machine : Machine}
    {outcome : Except Unwind Value × Machine}
    (le : fuel ≤ more)
    (served : serve host limit fuel request machine = some outcome) :
    serve host limit more request machine = some outcome := by
  induction fuel generalizing more request machine outcome with
  | zero => cases served
  | succ fuel inductionHypothesis =>
      obtain ⟨more, rfl⟩ : ∃ less, more = less + 1 := ⟨more - 1, by omega⟩
      have leLess : fuel ≤ more := by omega
      have opened {step : Step}
          (nested :
            Run.nested limit (serve host limit fuel (.finish step)) machine = some outcome) :
          Run.nested limit (serve host limit more (.finish step)) machine = some outcome := by
        unfold Run.nested at nested ⊢
        split
        · rwa [if_pos ‹_›] at nested
        · rw [if_neg ‹_›] at nested
          cases inside : serve host limit fuel (.finish step)
              { machine with depth := machine.depth + 1 } with
          | none => simp [inside] at nested
          | some ended =>
              rw [inside] at nested
              rw [inductionHypothesis leLess inside]
              exact nested
      cases request with
      | evaluate scope form => exact opened served
      | call callee operands => exact opened served
      | finish step =>
          rw [serve_finish] at served ⊢
          cases amounts : stepScript host step with
          | inl value =>
              rw [amounts] at served
              exact served
          | inr script =>
              rw [amounts] at served
              exact script.conclude_mono (fun _ _ _ => inductionHypothesis leLess) served
      | reach scope home => exact served
      | endless => exact served

theorem serve_value
    (value : Value)
    (machine : Machine) :
    serve host limit (fuel + 1) (.finish (.value value)) machine = some (.ok value, machine) :=
  rfl

end Machine

/--
Where so many levels are left, the form that stands for the datum has the value, and evaluating it
changes nothing.
-/
def Store.Means
    (host : Host)
    (limit levels : Nat)
    (scope : Scope)
    (store : Store)
    (datum : Datum)
    (value : Value) : Prop :=
  ∀ ⦃form : Value⦄ ⦃context : Context⦄ ⦃depth fuel : Nat⦄,
    store.Encodes datum form →
    depth + levels ≤ limit →
    2 * levels + 1 ≤ fuel →
    Machine.serve host limit fuel (.evaluate scope form) ⟨store, context, depth⟩ =
      some (.ok value, ⟨store, context, depth⟩)

namespace Store

/-- A form whose script answers with a value means the value. -/
theorem Means.of_run
    (ran :
      ∀ {form : Value} {context : Context} {depth fuel : Nat},
        store.Encodes datum form →
        depth + levels ≤ limit →
        2 * levels + 1 ≤ fuel →
        (Evaluation.script host scope form).run (Machine.serve host limit fuel) Run.done
            ⟨store, context, depth⟩ =
          some (.ok (.value value), ⟨store, context, depth⟩)) :
    store.Means host limit (levels + 1) scope datum value := by
  intro form context depth fuel encodes room enough
  obtain ⟨fuel, rfl⟩ : ∃ fewer, fuel = fewer + 3 := ⟨fuel - 3, by omega⟩
  refine Machine.serve_evaluate (by omega) ?_
  rw [Machine.serve_finish]
  refine (Script.conclude_eq_ok_iff _).mpr ⟨_, _, ran encodes (by omega) (by omega), ?_⟩
  exact Machine.serve_value _ _

/-- A form that means the value where few levels are left does so where more are. -/
theorem Means.mono
    {more : Nat}
    (means : store.Means host limit levels scope datum value)
    (le : levels ≤ more) :
    store.Means host limit more scope datum value :=
  fun _ _ _ _ encodes room enough => means encodes (by omega) (by omega)

theorem means_integer
    (value : Int64) :
    store.Means host limit 1 scope (.integer value) (.integer value) := by
  refine Means.of_run fun encodes _ _ => ?_
  cases encodes
  rfl

theorem means_boolean
    (value : Bool) :
    store.Means host limit 1 scope (.boolean value) (.boolean value) := by
  refine Means.of_run fun encodes _ _ => ?_
  cases encodes
  rfl

theorem means_symbol
    (found : store.lookup? scope name = some value) :
    store.Means host limit 1 scope (.symbol name) value := by
  refine Means.of_run fun encodes _ _ => ?_
  cases encodes
  simp only [Evaluation.script, Script.nameValue, bind, Script.bind, Script.view, Script.run, found,
    pure, Script.answer, Run.done]

end Store

/-! Operands. -/

namespace Application

variable
  {serve : Request → Run Value}
  {handOver : Step → Run Step}
  {machine : Machine}
  {operands : Value}
  {forms values : List Value}

theorem run_operandsFrom
    (spells : machine.store.Spells operands forms .nil)
    (valued :
      List.Forall₂
        (fun form value => serve (.evaluate scope form) machine = some (.ok value, machine))
        forms values)
    {steps : Nat}
    (enough : forms.length < steps)
    (sofar : List Value) :
    (operandsFrom scope steps sofar operands).run serve handOver machine =
      some (.ok (sofar.reverse ++ values), machine) := by
  induction valued generalizing operands steps sofar with
  | nil =>
      cases spells
      obtain ⟨steps, rfl⟩ := Nat.exists_eq_add_of_lt enough
      rw [List.append_nil]
      rfl
  | @cons form value forms values served _ inductionHypothesis =>
      obtain ⟨steps, rfl⟩ : ∃ fewer, steps = fewer + 1 :=
        ⟨steps - 1, by rw [List.length_cons] at enough; omega⟩
      cases spells with
      | @pair address _ tail _ _ found spells =>
          have pair : machine.store.pairAt address = ⟨form, tail⟩ := Store.pairAt_eq found
          have rest := inductionHypothesis spells (Nat.lt_of_succ_lt_succ enough) (value :: sofar)
          rw [List.reverse_cons, List.append_assoc] at rest
          refine Eq.trans ?_ rest
          simp only [operandsFrom, bind, Script.bind, Script.view, Script.run, pair,
            Script.evaluate, served, Script.ofResult]

theorem run_operandValues
    (spells : machine.store.Spells operands forms .nil)
    (valued :
      List.Forall₂
        (fun form value => serve (.evaluate scope form) machine = some (.ok value, machine))
        forms values) :
    (operandValues scope operands).run serve handOver machine = some (.ok values, machine) := by
  have isLast (address : Nat) : Value.nil ≠ .pair address := nofun
  have isList : machine.store.isList operands = true := by
    have listed := Store.listItems?_of_spells spells
    unfold Store.listItems? at listed
    split at listed
    · assumption
    · cases listed
  have fits := spells.length_le isLast
  simp only [operandValues, bind, Script.bind, Script.view, Script.run, isList]
  exact run_operandsFrom spells valued (by omega) []

/-- A list with a name at its head calls what the name is bound to, if that is no special form. -/
theorem isCall_of_encodes
    {callee : Value}
    {operands : List Datum}
    (encodes : store.Encodes (.ofList (.symbol name :: operands)) form)
    (ordinary : memberName? name = none)
    (found : store.lookup? scope name = some callee)
    (applied : takesForms callee = false)
    (means : List.Forall₂ (store.Means host limit levels scope) operands values)
    (room : depth + levels ≤ limit)
    (enough : 2 * levels + 1 ≤ fuel) :
    ∃ address,
      form = .pair address ∧
        IsCall host (Machine.serve host limit fuel) scope address callee values
          ⟨store, context, depth⟩ ⟨store, context, depth⟩ := by
  cases encodes with
  | @pair address head tail _ _ pair encodesHead encodesOperands =>
      cases encodesHead
      obtain ⟨forms, spells, encodesForms⟩ := Store.Encodes.spells encodesOperands
      have present := Store.pairAt_eq pair
      refine ⟨address, rfl, _, _, ⟨store, context, depth⟩, present, ?_, applied, ?_⟩
      · simp only [headOf, ordinary, found]
        rfl
      · refine run_operandValues spells ?_
        exact
          forall₂_join (fun _ _ _ _ encodes means => means encodes room enough) encodesForms means

/-- A list with a name at its head uses the special form that the name is bound to. -/
theorem isUse_of_encodes
    {keyword : SpecialForm}
    {operands : List Datum}
    (encodes : store.Encodes (.ofList (.symbol name :: operands)) form)
    (ordinary : memberName? name = none)
    (found : store.lookup? scope name = some (.special keyword)) :
    ∃ address forms,
      form = .pair address ∧
        List.Forall₂ store.Encodes operands forms ∧
          IsUse host serve handOver scope address keyword forms ⟨store, context, depth⟩
            ⟨store, context, depth⟩ := by
  cases encodes with
  | @pair address head tail _ _ pair encodesHead encodesTail =>
      cases encodesHead
      obtain ⟨forms, spells, encodesForms⟩ := Store.Encodes.spells encodesTail
      refine ⟨address, forms, rfl, encodesForms, _, tail, Store.pairAt_eq pair, ?_, spells⟩
      simp only [headOf, ordinary, found]
      rfl

end Application

/-! Primitives. -/

namespace Primitive

variable
  {first second result : Int64}

/-- The primitive answers the operands with the value and leaves every store as it is. -/
def Answers
    (host : Host)
    (operation : Primitive)
    (operands : List Value)
    (value : Value) : Prop :=
  ∀ store : Store, operation.apply host operands store = (.ok value, store)

theorem answers_equal
    (host : Host)
    (first second : Int64) :
    Answers host (.comparison .equal) [.integer first, .integer second]
      (.boolean (decide (first = second))) := by
  intro store
  have compared :
      Comparison.equal.holds (.exact first) (.exact second) = decide (first = second) := by
    change decide (compare first.toInt second.toInt = .eq) = _
    rw [decide_eq_decide, Int.compare_eq_eq, Int64.toInt_inj]
  rw [← compared, ← Bool.and_true (Comparison.equal.holds _ _)]
  rfl

theorem answers_negation
    (host : Host)
    (value : Bool) :
    Answers host (.equivalence .negation) [.boolean value] (.boolean !value) := by
  cases value <;> exact fun store => rfl

theorem answers_difference
    (host : Host)
    (isDifference : result.toInt = first.toInt - second.toInt) :
    Answers host (.arithmetic .subtract) [.integer first, .integer second] (.integer result) := by
  intro store
  have subtracted : (Number.exact first).subtract? (.exact second) = some (.exact result) := by
    change (word? (first.toInt - second.toInt)).map Number.exact = _
    rw [← isDifference, word?_toInt]
    rfl
  change Arithmetic.foldNumbers (fun total number => fitting "subtraction" (total.subtract? number))
    (.exact first) [.exact second] store = _
  simp only [Arithmetic.foldNumbers, List.foldlM_cons, subtracted]
  rfl

theorem answers_sum
    (host : Host)
    (isSum : result.toInt = first.toInt + second.toInt) :
    Answers host (.arithmetic .add) [.integer first, .integer second] (.integer result) := by
  intro store
  have begun : (Number.exact 0).add? (.exact first) = some (.exact first) := by
    change (word? (0 + first.toInt)).map Number.exact = _
    rw [Int.zero_add, word?_toInt]
    rfl
  have added : (Number.exact first).add? (.exact second) = some (.exact result) := by
    change (word? (first.toInt + second.toInt)).map Number.exact = _
    rw [← isSum, word?_toInt]
    rfl
  change Arithmetic.foldNumbers (fun total number => fitting "addition" (total.add? number))
    (.exact 0) [.exact first, .exact second] store = _
  simp only [Arithmetic.foldNumbers, List.foldlM_cons, begun, fitting, pure_bind, added]
  rfl

end Primitive

/-- Using a primitive that changes nothing takes one level more than its operands. -/
theorem Store.means_use_of_apply
    {operation : Primitive}
    {operands : List Datum}
    {values : List Value}
    (ordinary : memberName? name = none)
    (found : store.lookup? scope name = some (.primitive operation))
    (means : List.Forall₂ (store.Means host limit levels scope) operands values)
    (applied : operation.apply host values store = (.ok value, store)) :
    store.Means host limit (levels + 1) scope (.ofList (.symbol name :: operands)) value := by
  refine Means.of_run ?_
  intro form context depth fuel encodes room enough
  obtain ⟨address, rfl, isCall⟩ :=
    Application.isCall_of_encodes encodes ordinary found rfl means room enough
  have ran :
      (Application.apply host (.primitive operation) values).run (Machine.serve host limit fuel)
          Run.done ⟨store, context, depth⟩ =
        some (.ok (.value value), ⟨store, context, depth⟩) :=
    Script.run_bind (Script.run_perform applied) _
  exact Application.run_eq_locate isCall ran

theorem Store.means_use
    {operation : Primitive}
    {operands : List Datum}
    {values : List Value}
    (ordinary : memberName? name = none)
    (found : store.lookup? scope name = some (.primitive operation))
    (means : List.Forall₂ (store.Means host limit levels scope) operands values)
    (answers : operation.Answers host values value) :
    store.Means host limit (levels + 1) scope (.ofList (.symbol name :: operands)) value :=
  means_use_of_apply ordinary found means (answers store)

end SmallScheme
