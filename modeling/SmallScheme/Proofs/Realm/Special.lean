import SmallScheme.Evaluation.SpecialForm
import SmallScheme.Proofs.Realm.Filling
import SmallScheme.Proofs.Realm.Script

namespace SmallScheme

/-!
# Special forms within a realm

Given operands of the realm, every special form stays within it.  The one exception is the rebinding
of parameters, for parameters may have to go on holding what they hold.  So it is taken as an end
here, and it stays within the realm if parameters are not steady.
-/

open Script

variable
  {realm : Realm}
  {size : Sizes}
  {ends : Sizes → Script Step → Prop}
  {scope : Scope}
  {value : Value}
  {operands forms : List Value}

/-- A list of one value. -/
theorem AllBelong.one
    (belongs : value.Belongs realm size) :
    AllBelong realm size [value] :=
  .cons belongs .nil

namespace Special

/-! Choice, sequence and application. -/

/-- The branches of a conditional belong to the realm of its form. -/
theorem stays_conditional
    (belong : AllBelong realm size operands) :
    Stays realm ends (Step.Belongs realm) size (conditional scope operands) := by
  unfold conditional
  split
  · refine (within_evaluate belong.head).bind fun later value grown _ => ?_
    split
    · exact stays_tail (belong.tail.head.mono grown)
    · exact stays_answer trivial
  · refine (within_evaluate belong.head).bind fun later value grown _ => ?_
    split
    · exact stays_tail (belong.tail.head.mono grown)
    · exact stays_tail (belong.tail.tail.head.mono grown)
  · exact stays_refuseCount

/-- What a conjunction is given up with is a value of the realm. -/
theorem stays_conjunction
    (belong : AllBelong realm size operands) :
    Stays realm ends (Step.Belongs realm) size (conjunction scope operands) := by
  induction operands generalizing size with
  | nil => exact stays_refuseCount
  | cons form rest inductionHypothesis =>
      cases rest with
      | nil => exact stays_tail belong.head
      | cons second others =>
          refine (within_evaluate belong.head).bind fun later value grown _ => ?_
          split
          · exact inductionHypothesis (belong.tail.mono grown)
          · exact stays_answer trivial

/-- What a disjunction is decided by is a value of the realm. -/
theorem stays_disjunction
    (belong : AllBelong realm size operands) :
    Stays realm ends (Step.Belongs realm) size (disjunction scope operands) := by
  induction operands generalizing size with
  | nil => exact stays_refuseCount
  | cons form rest inductionHypothesis =>
      cases rest with
      | nil => exact stays_tail belong.head
      | cons second others =>
          refine (within_evaluate belong.head).bind fun later value grown isValue => ?_
          split
          · exact stays_answer isValue
          · exact inductionHypothesis (belong.tail.mono grown)

/-- The parts of a clause belong to the realm. -/
private def PartsBelong (realm : Realm) (size : Sizes) (parts : Value × List Value) : Prop :=
  parts.1.Belongs realm size ∧ AllBelong realm size parts.2

/-- The parts of a clause belong to the realm of the clause. -/
private theorem within_clauseParts
    {construct : String}
    (belongs : value.Belongs realm size) :
    Within realm (PartsBelong realm) size (clauseParts construct value) := by
  have looked :
      Within realm
        (fun later found => ∀ items, found = some items → AllBelong realm later items) size
        (view fun store => store.listItems? value) :=
    within_view fun store reaches items found =>
      reaches.holds.listItems? (belongs.mono reaches.grown) found
  refine looked.bind fun later found _ belong => ?_
  split
  · exact .done ⟨(belong _ rfl).head, (belong _ rfl).tail⟩
  · exact stays_failTelling fun _ _ => trivial

/-- The value that chose a clause is passed on to its receiver. -/
private theorem stays_clauseResult
    (belongs : value.Belongs realm size)
    (belong : AllBelong realm size forms) :
    Stays realm ends (Step.Belongs realm) size (clauseResult scope value forms) := by
  unfold clauseResult
  split
  · split
    · refine (within_evaluate belong.tail.head).bind fun later receiver grown isReceiver => ?_
      exact stays_defer ⟨isReceiver, .one (belongs.mono grown)⟩
    · exact stays_fail trivial
  · split
    · exact stays_answer belongs
    · exact stays_body belong

/-- Clauses are tried in turn, each of them within the realm. -/
theorem stays_clauses
    (belong : AllBelong realm size operands) :
    Stays realm ends (Step.Belongs realm) size (clauses scope operands) := by
  induction operands generalizing size with
  | nil => exact stays_fail trivial
  | cons clause rest inductionHypothesis =>
      refine (within_clauseParts belong.head).bind fun later parts grown inParts => ?_
      obtain ⟨test, forms⟩ := parts
      obtain ⟨testBelongs, formsBelong⟩ := inParts
      dsimp only
      split
      · split
        · exact stays_body formsBelong
        · exact stays_fail trivial
      · refine (within_evaluate testBelongs).bind fun last value more isValue => ?_
        split
        · exact stays_clauseResult isValue (formsBelong.mono more)
        · exact inductionHypothesis (belong.tail.mono (le_trans grown more))

/-- To compare a key with data takes nothing out of the realm. -/
private theorem stays_holdsKey
    {key : Value}
    {data : List Value}
    (belong : AllBelong realm size data) :
    StoreM.Stays realm (fun _ _ => True) size (holdsKey key data) := by
  induction data generalizing size with
  | nil => exact .pure fun _ _ => trivial
  | cons datum rest inductionHypothesis =>
      refine (StoreM.Stays.change (Store.makes_quoteValue belong.head)).bind
        fun later quoted grown _ => ?_
      refine StoreM.Stays.bind (.view fun _ _ => trivial) fun last same more (_ : True) => ?_
      split
      · exact .pure fun _ _ => trivial
      · exact inductionHypothesis (belong.tail.mono (le_trans grown more))

/-- The clause with the key belongs to the realm, and so does its result. -/
private theorem stays_keyClauses
    {key : Value}
    (belongs : key.Belongs realm size)
    (belong : AllBelong realm size operands) :
    Stays realm ends (Step.Belongs realm) size (keyClauses scope key operands) := by
  induction operands generalizing size with
  | nil => exact stays_answer trivial
  | cons clause rest inductionHypothesis =>
      refine (within_clauseParts belong.head).bind fun later parts grown inParts => ?_
      obtain ⟨data, forms⟩ := parts
      obtain ⟨dataBelongs, formsBelong⟩ := inParts
      dsimp only
      split
      · split
        · exact stays_fail trivial
        · split
          · exact stays_clauseResult (belongs.mono grown) formsBelong
          · exact stays_body formsBelong
      · have searched := (Store.stays_listItems dataBelongs).bind fun _ _ _ inData =>
          @stays_holdsKey realm _ key _ inData
        refine (within_perform searched).bind fun last chosen more _ => ?_
        have grownMore := le_trans grown more
        split
        · split
          · exact stays_answer trivial
          · exact stays_clauseResult (belongs.mono grownMore) (formsBelong.mono more)
        · exact inductionHypothesis (belongs.mono grownMore) (belong.tail.mono grownMore)

/-- The key that clauses are tried for is a value of the realm. -/
theorem stays_caseClauses
    (belong : AllBelong realm size operands) :
    Stays realm ends (Step.Belongs realm) size (caseClauses scope operands) := by
  unfold caseClauses
  split
  · exact stays_refuseCount
  · refine (within_evaluate belong.head).bind fun later key grown isKey => ?_
    exact stays_keyClauses isKey (belong.tail.mono grown)

/-- What `apply` calls and the items that it passes on belong to the realm. -/
theorem stays_application
    (belong : AllBelong realm size operands) :
    Stays realm ends (Step.Belongs realm) size (application scope operands) := by
  unfold application
  split
  case h_1 => exact stays_refuseCount
  case h_2 operator given =>
    split
    case h_1 => exact stays_refuseCount
    case h_2 last isLast =>
      have givenBelong := belong.tail
      have lastBelongs := givenBelong last (List.mem_of_getLast? isLast)
      have leadingBelong := givenBelong.of_subset (List.dropLast_subset given)
      refine (within_evaluate belong.head).bind fun first callee grown isCallee => ?_
      refine (within_evaluateAll .nil (leadingBelong.mono grown)).bind
        fun second leading more isLeading => ?_
      have grownMore := le_trans grown more
      refine (within_evaluate (lastBelongs.mono grownMore)).bind
        fun third spread most isSpread => ?_
      refine (within_perform (Store.stays_listItems isSpread)).bind
        fun fourth further grownFurther isFurther => ?_
      refine stays_defer ⟨isCallee.mono (le_trans more (le_trans most grownFurther)), ?_⟩
      exact (isLeading.mono (le_trans most grownFurther)).append isFurther

/-- The results of calls in the realm belong to it. -/
private theorem within_callEach
    {callee : Value}
    {sofar items : List Value}
    (belongs : callee.Belongs realm size)
    (earlier : AllBelong realm size sofar)
    (belong : AllBelong realm size items) :
    Within realm (AllBelong realm) size (callEach callee sofar items) := by
  induction items generalizing size sofar with
  | nil => exact .done earlier.reverse
  | cons item rest inductionHypothesis =>
      refine (within_call belongs (.one belong.head)).bind fun later result grown isResult => ?_
      exact inductionHypothesis (belongs.mono grown) (.cons isResult (earlier.mono grown))
        (belong.tail.mono grown)

/-- A procedure and a list of the realm have results in the realm. -/
private theorem within_eachResult
    (belong : AllBelong realm size operands) :
    Within realm (AllBelong realm) size (eachResult scope operands) := by
  unfold eachResult
  split
  · refine (within_evaluate belong.head).bind fun first callee grown isCallee => ?_
    refine (within_evaluate (belong.tail.head.mono grown)).bind fun second list more isList => ?_
    refine (within_perform (Store.stays_listItems isList)).bind fun third items most inList => ?_
    exact within_callEach (isCallee.mono (le_trans more most)) .nil inList
  · exact stays_refuseCount

/-- The list of the results is made of fresh pairs. -/
theorem stays_mapping
    (belong : AllBelong realm size operands) :
    Stays realm ends (Step.Belongs realm) size (mapping scope operands) :=
  (within_eachResult belong).bind fun _ _ _ results =>
      stays_answerFresh (Store.makes_newList results)

/-- An iteration has a constant for its value. -/
theorem stays_iteration
    (belong : AllBelong realm size operands) :
    Stays realm ends (Step.Belongs realm) size (iteration scope operands) :=
  (within_eachResult belong).bind fun _ _ _ _ => stays_answer trivial

/-- The value that is evaluated once more is a form of the realm. -/
theorem stays_evaluation
    (belong : AllBelong realm size operands) :
    Stays realm ends (Step.Belongs realm) size (evaluation scope operands) := by
  unfold evaluation
  split
  · exact (within_evaluate belong.head).bind fun _ _ _ isForm => stays_tail isForm
  · refine (within_evaluate belong.head).bind fun first form grown isForm => ?_
    refine (within_evaluate (belong.tail.head.mono grown)).bind fun second _ more _ => ?_
    exact stays_tail (isForm.mono more)
  · exact stays_refuseCount

/-! Definitions, assignments and blocks. -/

/-- A procedure is made of forms of the realm. -/
private theorem within_makeProcedure
    {name : Option String}
    {formals : Formals}
    (belong : AllBelong realm size forms) :
    Within realm (Value.Belongs realm) size (makeProcedure scope name formals forms) :=
  within_perform (.change
      (@Store.makes_newProcedure realm size ⟨formals, forms, scope, name⟩ belong))

/-- Formals are told by names, which belong to every realm. -/
private theorem within_formalsOf :
    Within realm (fun _ _ => True) size (formalsOf value) :=
  within_perform (.look fun store _ => Store.fits_ofForm store value)

/-- A procedure that is named stays where it is. -/
private theorem stays_nameValue
    {name : String} :
    StoreM.Stays realm (fun _ _ => True) size (nameValue name value) := by
  unfold nameValue
  split
  · exact Store.stays_nameProcedure
  · exact .pure fun _ _ => trivial

/-- The value that a name is bound to belongs to the realm. -/
theorem stays_definition
    (belong : AllBelong realm size operands) :
    Stays realm ends (Step.Belongs realm) size (definition scope operands) := by
  unfold definition
  split
  · refine Stays.bind within_look fun first head grown _ => ?_
    refine within_nameFor.bind fun second name more _ => within_formalsOf.bind
      fun third formals most _ => ?_
    have grownForms := belong.tail.mono (le_trans grown (le_trans more most))
    refine (within_makeProcedure grownForms).bind fun _ _ _ isProcedure => ?_
    exact (within_perform (Store.stays_define isProcedure)).bind fun _ _ _ _ => stays_answer trivial
  · refine within_nameFor.bind fun later name _ _ => ?_
    have isUnspecified : Value.unspecified.Belongs realm later := trivial
    exact (within_perform (Store.stays_define isUnspecified)).bind fun _ _ _ _ =>
      stays_answer trivial
  · refine within_nameFor.bind fun first name grown _ => ?_
    refine (within_evaluate (belong.tail.head.mono grown)).bind fun second value more isValue => ?_
    refine (within_perform stays_nameValue).bind fun third _ most _ => ?_
    exact (within_perform (Store.stays_define (isValue.mono most))).bind fun _ _ _ _ =>
      stays_answer trivial
  · exact stays_refuseCount

/-- The value that is assigned belongs to the realm. -/
theorem stays_assignment
    (belong : AllBelong realm size operands) :
    Stays realm ends (Step.Belongs realm) size (assignment scope operands) := by
  unfold assignment
  split
  · refine within_nameFor.bind fun first name grown _ => ?_
    refine (within_evaluate (belong.tail.head.mono grown)).bind fun second value _ isValue => ?_
    exact (within_perform (Store.stays_assign isValue)).bind fun _ _ _ _ => stays_answer trivial
  · exact stays_refuseCount

/-- A procedure of the realm is its value. -/
theorem stays_procedure
    (belong : AllBelong realm size operands) :
    Stays realm ends (Step.Belongs realm) size (procedure scope operands) := by
  unfold procedure
  split
  · refine within_formalsOf.bind fun later formals grown _ => ?_
    exact (within_makeProcedure (belong.tail.mono grown)).bind fun _ _ _ isProcedure =>
      stays_answer isProcedure
  · exact stays_refuseCount

/-- The form for the value of a binding belongs to the realm. -/
private def BindingBelongs (realm : Realm) (size : Sizes) (binding : BlockBinding) : Prop :=
  ∀ form, binding.form = some form → form.Belongs realm size

/-- The form of a binding belongs to the realm of its entry. -/
private theorem within_bindingOf
    (belongs : value.Belongs realm size) :
    Within realm (BindingBelongs realm) size (bindingOf value) := by
  unfold bindingOf
  split
  · refine (within_perform (Store.stays_listItems belongs)).bind fun later parts _ inParts => ?_
    split
    · exact within_nameFor.bind fun _ _ _ _ => .done nofun
    · refine within_nameFor.bind fun last name more _ => .done ?_
      rintro form ⟨⟩
      exact inParts.tail.head.mono more
    · exact stays_failTelling fun _ _ => trivial
  · exact within_nameFor.bind fun _ _ _ _ => .done nofun

/-- The forms for the values of all bindings belong to the realm. -/
private def BindingsBelong (realm : Realm) (size : Sizes) (bindings : List BlockBinding) : Prop :=
  ∀ binding ∈ bindings, BindingBelongs realm size binding

private theorem BindingsBelong.mono
    {later : Sizes}
    {bindings : List BlockBinding}
    (belong : BindingsBelong realm size bindings)
    (grown : size ≤ later) :
    BindingsBelong realm later bindings :=
  fun binding member form isForm => (belong binding member form isForm).mono grown

/-- The entries of a block are read in turn. -/
private theorem within_bindingsFrom
    {sofar : List BlockBinding}
    {entries : List Value}
    (earlier : BindingsBelong realm size sofar)
    (belong : AllBelong realm size entries) :
    Within realm (BindingsBelong realm) size (bindingsFrom sofar entries) := by
  induction entries generalizing size sofar with
  | nil => exact .done fun binding member => earlier binding (List.mem_reverse.mp member)
  | cons entry rest inductionHypothesis =>
      refine (within_bindingOf belong.head).bind fun later binding grown isBinding => ?_
      exact inductionHypothesis (List.forall_mem_cons.mpr ⟨isBinding, earlier.mono grown⟩)
        (belong.tail.mono grown)

/-- All forms of the bindings belong to the realm of the block. -/
private theorem within_bindingsOf
    (belongs : value.Belongs realm size) :
    Within realm (BindingsBelong realm) size (bindingsOf value) :=
  (within_perform (Store.stays_listItems belongs)).bind fun _ _ _ entries =>
    within_bindingsFrom nofun entries

/-- The form of a binding has a value of the realm. -/
private theorem within_bindingValue
    {binding : BlockBinding}
    (belongs : BindingBelongs realm size binding) :
    Within realm (Value.Belongs realm) size (bindingValue scope binding) := by
  unfold bindingValue
  split
  case h_1 form isForm =>
    exact within_evaluate (belongs form isForm)
  case h_2 => exact .done trivial

/-- Each binding is made before the next form is evaluated. -/
private theorem within_defineBindings
    {bindings : List BlockBinding}
    (belong : BindingsBelong realm size bindings) :
    Within realm (fun _ _ => True) size (defineBindings scope bindings) := by
  induction bindings generalizing size with
  | nil => exact .done trivial
  | cons binding rest inductionHypothesis =>
      obtain ⟨first, others⟩ := List.forall_mem_cons.mp belong
      refine (within_bindingValue first).bind fun later value grown isValue => ?_
      refine (within_perform (Store.stays_define isValue)).bind fun last _ more _ => ?_
      exact inductionHypothesis (BindingsBelong.mono others (le_trans grown more))

/-- Nothing of the store changes but that there is one more frame. -/
private theorem within_newChild :
    Within realm (fun _ _ => True) size (perform (StoreM.change (Store.newChild scope))) :=
  within_perform (.change Store.makes_newChild)

/-- The forms of a block are evaluated in a fresh frame. -/
theorem stays_block
    (belong : AllBelong realm size operands) :
    Stays realm ends (Step.Belongs realm) size (block scope operands) := by
  unfold block
  split
  · exact stays_refuseCount
  · refine within_newChild.bind fun first inner grown _ => ?_
    refine (within_bindingsOf (belong.head.mono grown)).bind
      fun second bindings more inBindings => ?_
    refine (within_defineBindings inBindings).bind fun third _ most _ => ?_
    exact stays_body (belong.tail.mono (le_trans grown (le_trans more most)))

/-- The values of all bindings belong to the realm. -/
private theorem within_bindingValues
    {sofar : List Value}
    {bindings : List BlockBinding}
    (earlier : AllBelong realm size sofar)
    (belong : BindingsBelong realm size bindings) :
    Within realm (AllBelong realm) size (bindingValues scope sofar bindings) := by
  induction bindings generalizing size sofar with
  | nil => exact .done earlier.reverse
  | cons binding rest inductionHypothesis =>
      obtain ⟨first, others⟩ := List.forall_mem_cons.mp belong
      refine (within_bindingValue first).bind fun later value grown isValue => ?_
      exact inductionHypothesis (.cons isValue (earlier.mono grown))
        (BindingsBelong.mono others grown)

/-- The procedure of a named block is called with values of the realm. -/
private theorem stays_namedBlock
    {name : String}
    (belongs : value.Belongs realm size)
    (belong : AllBelong realm size forms) :
    Stays realm ends (Step.Belongs realm) size (namedBlock scope name value forms) := by
  refine (within_bindingsOf belongs).bind fun first bindings grownFirst inBindings => ?_
  refine (within_bindingValues .nil inBindings).bind fun second values grownSecond areValues => ?_
  refine (within_perform (.look fun store _ => Store.fits_namesOf store [] _)).bind
    fun third names grownThird _ => within_newChild.bind fun fourth inner grownFourth _ => ?_
  have grownForms :=
    le_trans grownFirst (le_trans grownSecond (le_trans grownThird grownFourth))
  refine (within_makeProcedure (belong.mono grownForms)).bind fun fifth loop grownFifth isLoop => ?_
  refine (within_perform (Store.stays_define isLoop)).bind fun sixth _ grownSixth _ => ?_
  have grownValues :=
    le_trans grownThird (le_trans grownFourth (le_trans grownFifth grownSixth))
  exact stays_defer ⟨isLoop.mono grownSixth, areValues.mono grownValues⟩

/-- A block belongs to the realm, whether it is named or not. -/
theorem stays_letBlock
    (belong : AllBelong realm size operands) :
    Stays realm ends (Step.Belongs realm) size (letBlock scope operands) := by
  unfold letBlock
  split
  · split
    · exact stays_namedBlock belong.tail.head belong.tail.tail
    · exact stays_block belong
  · exact stays_block belong

end Special

end SmallScheme
