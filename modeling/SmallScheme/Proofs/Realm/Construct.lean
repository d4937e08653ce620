import SmallScheme.Evaluation.Machine
import SmallScheme.Proofs.Realm.Dynamic
import SmallScheme.Proofs.Realm.Primitive

namespace SmallScheme

/-!
# Every construct stays within its realm

Quasiquotation, the use of transformers, application and the evaluation of forms stay within the
realm of what they are given.  So does every step that the machine carries out, up to the rebinding
of parameters, provided that the host stays within the realm.
-/

open Script

variable
  {realm : Realm}
  {size : Sizes}
  {ends : Sizes → Script Step → Prop}
  {scope : Scope}
  {value : Value}
  {operands forms values : List Value}

/-! Quasiquotation. -/

/-- What is under a mark of the realm belongs to it, however the mark is spelled. -/
theorem Store.Holds.mark?
    {store : Store}
    (holds : store.Holds realm size)
    {mark : Mark}
    {inner : Value}
    (belongs : value.Belongs realm size)
    (found : store.mark? value = some (mark, inner)) :
    inner.Belongs realm size := by
  unfold Store.mark? at found
  split at found
  case h_1 =>
    cases found
    exact holds.markedAt _
  case h_2 address =>
    split at found
    case h_1 => cases found
    case h_2 pair present =>
      have inPair := holds.pair belongs present
      dsimp only at found
      split at found
      case h_1 isMark isPair =>
        cases found
        exact (holds.pair? inPair.2 isPair).1
      case h_2 => cases found
  case h_3 => cases found

/-- A pair that a list goes on with belongs to the realm. -/
theorem Store.Holds.listPair?
    {store : Store}
    (holds : store.Holds realm size)
    {address : Nat}
    {pair : Pair}
    (belongs : value.Belongs realm size)
    (found : store.listPair? value = some (address, pair)) :
    realm.owns size address ∧ pair.Belongs realm size := by
  unfold Store.listPair? at found
  split at found
  · split at found
    case h_1 present =>
      cases found
      exact ⟨belongs, holds.pair belongs present⟩
    case h_2 => cases found
  · cases found

namespace Quasiquotation

variable
  {Answer : Type}
  {ends : Sizes → Script Answer → Prop}
  {fine : Sizes → Answer → Prop}

/-- A mark that is spelled out is a list of the realm. -/
private theorem within_wrap
    {mark : Mark}
    (belongs : value.Belongs realm size) :
    Within realm (Value.Belongs realm) size (wrap mark value) :=
  within_perform (.change (Store.makes_wrap belongs))

/-- The items that are spliced in belong to the realm of their list. -/
private theorem within_splice
    (belongs : value.Belongs realm size) :
    Within realm (AllBelong realm) size (splice value) := by
  have looked :
      Within realm
        (fun later found => ∀ items, found = some items → AllBelong realm later items) size
        (view fun store => store.listItems? value) :=
    within_view fun store reaches items found =>
      reaches.holds.listItems? (belongs.mono reaches.grown) found
  refine looked.bind fun later found _ belong => ?_
  split
  · exact .done (belong _ rfl)
  · exact stays_failWith fun _ _ => trivial

/-- The script goes on within the realm with whatever fine thing it is given. -/
private def GoesOn
    {Given : Type}
    (realm : Realm)
    (ends : Sizes → Script Answer → Prop)
    (fine : Sizes → Answer → Prop)
    (given : Sizes → Given → Prop)
    (size : Sizes)
    (next : Given → Script Answer) : Prop :=
  ∀ later thing, size ≤ later → given later thing → Stays realm ends fine later (next thing)

private theorem GoesOn.mono
    {Given : Type}
    {given : Sizes → Given → Prop}
    {later : Sizes}
    {next : Given → Script Answer}
    (goesOn : GoesOn realm ends fine given size next)
    (grown : size ≤ later) :
    GoesOn realm ends fine given later next :=
  fun last thing more => goesOn last thing (le_trans grown more)

/-- What goes on with a list for a mark goes on with the datum in it. -/
private theorem goesOn_wrap
    {mark : Mark}
    {next : Value → Script Answer}
    (goesOn : GoesOn realm ends fine (Value.Belongs realm) size next) :
    GoesOn realm ends fine (Value.Belongs realm) size fun inner => wrap mark inner >>= next :=
  fun _ _ grown isInner => (within_wrap isInner).bind fun last _ more isWrapped =>
    goesOn last _ (le_trans grown more) isWrapped

/-- The items of a vector are expanded one after the other. -/
private theorem stays_collect
    {expandOne : Value → (List Value → Script Answer) → Script Answer}
    {next : List Value → Script Answer}
    (expands :
      ∀ {later item next},
        Value.Belongs realm later item →
        GoesOn realm ends fine (AllBelong realm) later next →
        Stays realm ends fine later (expandOne item next))
    (goesOn : GoesOn realm ends fine (AllBelong realm) size next)
    {sofar items : List Value}
    (earlier : AllBelong realm size sofar)
    (belong : AllBelong realm size items) :
    Stays realm ends fine size (collect expandOne next sofar items) := by
  induction items generalizing size sofar with
  | nil => exact goesOn size _ (le_refl _) earlier.reverse
  | cons item rest inductionHypothesis =>
      refine expands belong.head fun later expanded grown inExpanded => ?_
      exact inductionHypothesis (goesOn.mono grown) (inExpanded.reverse.append (earlier.mono grown))
        (belong.tail.mono grown)

/-- What is known of a mark that has been looked for. -/
private theorem within_mark?
    (belongs : value.Belongs realm size) :
    Within realm
      (fun later found =>
        ∀ mark inner, found = some (mark, inner) → Value.Belongs realm later inner)
      size (view fun store => store.mark? value) :=
  within_view fun _ reaches _ _ found =>
    reaches.holds.mark? (belongs.mono reaches.grown) found

/-- Within this much fuel expansion stays within the realm, whatever the script goes on with. -/
private structure ExpandsWithin
    (realm : Realm)
    (ends : Sizes → Script Answer → Prop)
    (fine : Sizes → Answer → Prop)
    (scope : Scope)
    (fuel : Nat) : Prop where
  template
    {size : Sizes}
    {level : Nat}
    {template : Value}
    {next : Value → Script Answer} :
    template.Belongs realm size →
    GoesOn realm ends fine (Value.Belongs realm) size next →
    Stays realm ends fine size (expand scope fuel level template next)
  list
    {size : Sizes}
    {level : Nat}
    {sofar : List Value}
    {rest : Value}
    {next : List Value × Value → Script Answer} :
    AllBelong realm size sofar →
    rest.Belongs realm size →
    GoesOn realm ends fine
      (fun later parts => AllBelong realm later parts.1 ∧ parts.2.Belongs realm later) size next →
    Stays realm ends fine size (expandList scope fuel level sofar rest next)
  item
    {size : Sizes}
    {level : Nat}
    {item : Value}
    {next : List Value → Script Answer} :
    item.Belongs realm size →
    GoesOn realm ends fine (AllBelong realm) size next →
    Stays realm ends fine size (expandItem scope fuel level item next)

/-! With one more fuel each of the three leaves the parts to the others. -/

/-- To expand a template with more fuel comes down to expanding its parts with less. -/
private theorem stays_expand
    {fuel level : Nat}
    {template : Value}
    {next : Value → Script Answer}
    (expands : ExpandsWithin realm ends fine scope fuel)
    (belongs : template.Belongs realm size)
    (goesOn : GoesOn realm ends fine (Value.Belongs realm) size next) :
    Stays realm ends fine size (expand scope (fuel + 1) level template next) := by
  unfold expand
  refine (within_mark? belongs).bind fun later found grown isInner => ?_
  have goesOnLater := goesOn.mono grown
  split
  · split
    · exact (within_evaluate (isInner _ _ rfl)).bind fun last _ more isValue =>
        goesOnLater last _ more isValue
    · exact expands.template (isInner _ _ rfl) (goesOn_wrap goesOnLater)
  · split
    · exact stays_failTelling fun _ _ => trivial
    · exact expands.template (isInner _ _ rfl) (goesOn_wrap goesOnLater)
  · exact expands.template (isInner _ _ rfl) (goesOn_wrap goesOnLater)
  · exact expands.template (isInner _ _ rfl) (goesOn_wrap goesOnLater)
  · split
    case h_1 =>
      refine expands.list .nil (belongs.mono grown) fun second parts more inParts => ?_
      refine (within_perform (.change
        (Store.makes_newListWithTail inParts.1 inParts.2))).bind fun third _ most isList => ?_
      exact goesOnLater third _ (le_trans more most) isList
    case h_2 address =>
      have looked :
          Within realm (AllBelong realm) later
            (view fun store => (store.vectorAt address).toList) :=
        within_view fun _ reaches =>
          reaches.holds.vectorAt (realm.ownsVector_mono belongs (le_trans grown reaches.grown))
      refine looked.bind fun second items more inVector => ?_
      refine stays_collect expands.item (fun third expanded most inExpanded => ?_) .nil inVector
      refine (within_perform (.change (Store.makes_newVector_toArray inExpanded))).bind
        fun fourth _ last isVector => ?_
      exact goesOnLater fourth _ (le_trans more (le_trans most last)) isVector
    case h_3 =>
      refine (within_perform (.change (Store.makes_quoteValue (belongs.mono grown)))).bind
        fun second _ more isQuoted => ?_
      exact goesOnLater second _ more isQuoted

/-- A list is expanded pair by pair. -/
private theorem stays_expandList
    {fuel level : Nat}
    {sofar : List Value}
    {rest : Value}
    {next : List Value × Value → Script Answer}
    (expands : ExpandsWithin realm ends fine scope fuel)
    (earlier : AllBelong realm size sofar)
    (belongs : rest.Belongs realm size)
    (goesOn :
      GoesOn realm ends fine
        (fun later parts => AllBelong realm later parts.1 ∧ parts.2.Belongs realm later)
        size next) :
    Stays realm ends fine size (expandList scope (fuel + 1) level sofar rest next) := by
  unfold expandList
  have looked :
      Within realm
        (fun later found =>
          ∀ address pair,
            found = some (address, pair) →
            realm.owns later address ∧ Pair.Belongs realm later pair)
        size (view fun store => store.listPair? rest) :=
    within_view fun _ reaches _ _ found =>
      reaches.holds.listPair? (belongs.mono reaches.grown) found
  refine looked.bind fun later found grown isPair => ?_
  split
  case h_1 address pair =>
    obtain ⟨owned, inPair⟩ := isPair address pair rfl
    refine expands.item inPair.1 fun second items more inItems => ?_
    -- The tail is read again, for the expansion of the item may have replaced it.
    have fetched :
        Within realm (Value.Belongs realm) second
          (view fun store => (store.pairAt address).tail) :=
      within_view fun _ reaches =>
        (reaches.holds.pairAt (realm.owns_mono owned (le_trans more reaches.grown))).2
    refine fetched.bind fun third tail most isTail => ?_
    have grownMost := le_trans grown (le_trans more most)
    exact expands.list ((inItems.mono most).reverse.append (earlier.mono grownMost)) isTail
      (goesOn.mono grownMost)
  case h_2 =>
    refine expands.template (belongs.mono grown) fun second tail more isTail => ?_
    have grownMore := le_trans grown more
    exact goesOn second _ grownMore ⟨(earlier.mono grownMore).reverse, isTail⟩

/-- An item is expanded like a template, unless its items are spliced in. -/
private theorem stays_expandItem
    {fuel level : Nat}
    {item : Value}
    {next : List Value → Script Answer}
    (expands : ExpandsWithin realm ends fine scope fuel)
    (belongs : item.Belongs realm size)
    (goesOn : GoesOn realm ends fine (AllBelong realm) size next) :
    Stays realm ends fine size (expandItem scope (fuel + 1) level item next) := by
  unfold expandItem
  refine (within_mark? belongs).bind fun later found grown isInner => ?_
  have whole :
      Stays realm ends fine later
        (expand scope fuel level item fun expanded => next [expanded]) :=
    expands.template (belongs.mono grown) fun last _ more isExpanded =>
      goesOn last _ (le_trans grown more) (.one isExpanded)
  split
  · split
    · refine (within_evaluate (isInner _ _ rfl)).bind fun second spread more isSpread => ?_
      refine (within_splice isSpread).bind fun third items most inItems => ?_
      exact goesOn third _ (le_trans grown (le_trans more most)) inItems
    · exact whole
  · exact whole

/-- The parts are expanded with less fuel, so the three functions are shown together. -/
private theorem expandsWithin
    (fuel : Nat) :
    ExpandsWithin realm ends fine scope fuel := by
  induction fuel with
  | zero =>
      constructor
      case template => exact fun belongs goesOn => goesOn _ _ (le_refl _) belongs
      case list =>
        exact fun earlier belongs goesOn =>
          goesOn _ _ (le_refl _) ⟨earlier.reverse, belongs⟩
      case item => exact fun belongs goesOn => goesOn _ _ (le_refl _) (.one belongs)
  | succ fuel inductionHypothesis =>
      constructor
      case template => exact stays_expand inductionHypothesis
      case list => exact stays_expandList inductionHypothesis
      case item => exact stays_expandItem inductionHypothesis

/-- The expansion of a template of the realm belongs to it. -/
theorem within_value
    (belongs : value.Belongs realm size) :
    Within realm (Value.Belongs realm) size (Quasiquotation.value scope value) := by
  refine Stays.bind within_look fun later extent grown (_ : True) => ?_
  exact (expandsWithin _).template (belongs.mono grown) fun _ _ _ isValue => .done isValue

end Quasiquotation

/-! Transformers. -/

namespace Special

/-- What is quoted belongs to the realm as data do. -/
theorem stays_quotation
    (belong : AllBelong realm size operands) :
    Stays realm ends (Step.Belongs realm) size (quotation operands) := by
  unfold quotation
  split
  · exact stays_answerFresh (Store.makes_quoteValue belong.head)
  · exact stays_refuseCount

theorem stays_quasiquotation
    (belong : AllBelong realm size operands) :
    Stays realm ends (Step.Belongs realm) size (quasiquotation scope operands) := by
  unfold quasiquotation
  split
  · exact (Quasiquotation.within_value belong.head).bind fun _ _ _ isValue => stays_answer isValue
  · exact stays_refuseCount

/-- A macro that is defined in the realm has its rules there. -/
theorem stays_transformerDefinition
    (belong : AllBelong realm size operands) :
    Stays realm ends (Step.Belongs realm) size (transformerDefinition scope operands) := by
  unfold transformerDefinition
  split
  case h_1 target form =>
    refine within_nameFor.bind fun first name grown _ => ?_
    have isForm := belong.tail.head.mono grown
    have looked :
        Within realm
          (fun later found => ∀ rules, found = some rules → AllBelong realm later rules) first
          (view fun store => transformerOperands? store form) := by
      refine within_view fun store reaches rules found => ?_
      unfold transformerOperands? at found
      split at found
      case h_1 pair isPair =>
        split at found
        · have inPair := reaches.holds.pair? (isForm.mono reaches.grown) isPair
          exact reaches.holds.listItems? inPair.2 found
        · cases found
      case h_2 => cases found
    refine looked.bind fun second found more inRules => ?_
    have define {later : Sizes} {transformer : Value} (belongs : transformer.Belongs realm later) :
        Stays realm ends (Step.Belongs realm) later
          (perform (Store.define scope name transformer) >>= fun _ => answer .unspecified) :=
      (within_perform (Store.stays_define belongs)).bind fun _ _ _ _ => stays_answer trivial
    dsimp only
    split
    · refine (within_perform (Transformer.stays_ofOperands (inRules _ rfl))).bind
        fun _ _ _ isTransformer => define isTransformer
    · refine (within_evaluate (isForm.mono more)).bind fun third value most isValue => ?_
      split
      · exact define isValue
      · exact .bind (stays_failTelling fun _ _ => trivial) fun _ _ _
          (belongs : Value.Belongs _ _ _) =>
          define belongs
  case h_2 => exact stays_refuseCount

/-- A transformer that is made in the realm has its rules there. -/
theorem stays_transformer
    (belong : AllBelong realm size operands) :
    Stays realm ends (Step.Belongs realm) size (transformer scope operands) :=
  stays_answerPerform (Transformer.stays_ofOperands belong)

/-- An expansion belongs to the realm, whether or not its home is still there. -/
theorem within_rewrite
    {address : Nat}
    (belongs : value.Belongs realm size) :
    Within realm (Value.Belongs realm) size (rewrite scope address value) := by
  refine Stays.bind within_look fun later home grown (_ : True) => ?_
  refine Stays.bind within_reaches fun last isHeld more _ => ?_
  exact within_perform (Store.stays_expandUse (belongs.mono (le_trans grown more)))

/-- An expansion holds what the use and the template hold, and fresh pairs. -/
theorem stays_expandOnce
    (belongs : value.Belongs realm size) :
    Stays realm ends (Step.Belongs realm) size (expandOnce scope value) := by
  have looked :
      Within realm
        (fun later found =>
          ∀ address operands, found = some (address, operands) → Value.Belongs realm later operands)
        size (view fun store => transformerUse? store scope value) := by
    refine within_view fun store reaches address operands found => ?_
    obtain ⟨pair, isPair, found⟩ := Option.bind_eq_some_iff.mp found
    obtain ⟨name, _, found⟩ := Option.bind_eq_some_iff.mp found
    have inPair := reaches.holds.pair? (belongs.mono reaches.grown) isPair
    split at found
    · cases found
      exact inPair.2
    · cases found
  refine looked.bind fun later found grown isUse => ?_
  split
  · exact (within_rewrite (isUse _ _ rfl)).bind fun _ _ _ isExpansion => .done isExpansion
  · exact stays_answerFresh (Store.makes_quoteValue (belongs.mono grown))

/-- The form that is to be expanded is evaluated in the realm. -/
theorem stays_expansion
    (belong : AllBelong realm size operands) :
    Stays realm ends (Step.Belongs realm) size (expansion scope operands) := by
  unfold expansion
  split
  · exact (within_evaluate belong.head).bind fun _ _ _ isForm => stays_defer isForm
  · exact stays_refuseCount

end Special

/-- What the host does stays within the realm. -/
structure Host.Stays (realm : Realm) (host : Host) : Prop where
  resolve :
    ∀ {size : Sizes} (name : String) (count : Option Nat) (namespaces : List String),
      StoreM.Stays realm
        (fun later found => ∀ value, found = some value → Value.Belongs realm later value) size
        (host.resolve name count namespaces)
  invoke :
    ∀ {size : Sizes} {operands : List Value} (member : String),
      AllBelong realm size operands →
      StoreM.Stays realm (Value.Belongs realm) size (host.invoke member operands)
  call :
    ∀ {size : Sizes} {object : ForeignObject} {operands : List Value},
      object.content.Belongs realm size →
      AllBelong realm size operands →
      StoreM.Stays realm (Value.Belongs realm) size (host.call object operands)
  function :
    ∀ {size : Sizes} {operands : List Value} (name : String),
      AllBelong realm size operands →
      StoreM.Stays realm (Value.Belongs realm) size (host.function name operands)
  form :
    ∀ {size : Sizes} {operands : List Value} (name : String) (scope : Scope),
      AllBelong realm size operands →
      Within realm (Step.Belongs realm) size (host.form name scope operands)

/-- The host that supplies nothing stays within every realm. -/
theorem Host.absent_stays
    (realm : Realm) :
    Host.absent.Stays realm where
  resolve _ _ _ := .pure fun _ _ _ impossible => nomatch impossible
  invoke _ _ := .throw trivial
  call _ _ := .throw trivial
  function _ _ := .throw trivial
  form _ _ _ := stays_fail trivial

section Hosted

variable
  {host : Host}
  (hostStays : host.Stays realm)

include hostStays

/-- All special forms stay within the realm, those that rebind until they do. -/
theorem SpecialForm.stays_script
    (form : SpecialForm)
    (belong : AllBelong realm size operands) :
    Stays realm (Special.Rebinds realm) (Step.Belongs realm) size
      (form.script host scope operands) := by
  cases form with
  | quotation => exact Special.stays_quotation belong
  | quasiquotation => exact Special.stays_quasiquotation belong
  | conditional => exact Special.stays_conditional belong
  | sequence => exact stays_body belong
  | definition => exact Special.stays_definition belong
  | assignment => exact Special.stays_assignment belong
  | procedure => exact Special.stays_procedure belong
  | letBlock => exact Special.stays_letBlock belong
  | letStarBlock => exact Special.stays_block belong
  | letrecBlock => exact Special.stays_block belong
  | letrecStarBlock => exact Special.stays_block belong
  | clauses => exact Special.stays_clauses belong
  | caseClauses => exact Special.stays_caseClauses belong
  | conjunction => exact Special.stays_conjunction belong
  | disjunction => exact Special.stays_disjunction belong
  | application => exact Special.stays_application belong
  | mapping => exact Special.stays_mapping belong
  | iteration => exact Special.stays_iteration belong
  | evaluation => exact Special.stays_evaluation belong
  | parameter => exact Special.stays_parameter belong
  | rebinding => exact Special.stays_rebinding belong
  | namespaceUse => exact Special.stays_namespaceUse belong
  | transformerDefinition => exact Special.stays_transformerDefinition belong
  | transformer => exact Special.stays_transformer belong
  | expansion => exact Special.stays_expansion belong
  | escapeShort => exact Special.stays_escaping belong
  | escapeLong => exact Special.stays_escaping belong
  | escapeOnly => exact Special.stays_escaping belong
  | wind => exact Special.stays_wind belong
  | continuableRaise => exact Special.stays_continuableRaise belong
  | handling => exact Special.stays_handling belong
  | «foreign» name _ =>
      exact (hostStays.form name scope belong).mono fun _ _ _ impossible => impossible.elim

/-- A name that is looked up has a value of the realm, or one that the host supplies. -/
theorem Store.stays_freeNameValue
    {name : String}
    {count : Option Nat} :
    StoreM.Stays realm (Value.Belongs realm) size (Store.freeNameValue host scope count name) := by
  unfold Store.freeNameValue
  split
  · exact .pure fun _ _ => trivial
  · split
    · exact .pure fun _ _ => trivial
    · refine StoreM.Stays.bind (.view fun _ _ => trivial) fun first namespaces _ (_ : True) => ?_
      refine (hostStays.resolve name count namespaces).bind fun later found _ isFound => ?_
      split
      · exact .answer (isFound _ rfl)
      · exact .throw trivial

/-- The value of a name belongs to the realm, unless the name is refused. -/
theorem within_nameValue
    {name : String} :
    Within realm (Value.Belongs realm) size (nameValue host scope name) := by
  have looked :
      Within realm
        (fun later found => ∀ value, found = some value → Value.Belongs realm later value) size
        (view fun store => store.lookup? scope name) :=
    within_view fun _ reaches _ found => reaches.holds.lookup? found
  refine looked.bind fun later found _ isFound => ?_
  split
  · exact .done (isFound _ rfl)
  · exact within_perform (Store.stays_freeNameValue hostStays)

namespace Application

omit hostStays in
/-- Operands are evaluated in the order in which they stand. -/
private theorem within_operandsFrom
    {steps : Nat}
    {sofar : List Value}
    (earlier : AllBelong realm size sofar)
    (belongs : value.Belongs realm size) :
    Within realm (AllBelong realm) size (operandsFrom scope steps sofar value) := by
  induction steps generalizing size sofar value with
  | zero => exact .done earlier.reverse
  | succ steps inductionHypothesis =>
      unfold operandsFrom
      split
      case h_1 address =>
        have looked :
            Within realm (Pair.Belongs realm) size (view fun store => store.pairAt address) :=
          within_view fun _ reaches =>
            reaches.holds.pairAt (realm.owns_mono belongs reaches.grown)
        refine looked.bind fun first pair grown inPair => ?_
        refine (within_evaluate inPair.1).bind fun second operand more isOperand => ?_
        exact inductionHypothesis (.cons isOperand (earlier.mono (le_trans grown more)))
          (inPair.2.mono more)
      case h_2 => exact .done earlier.reverse

omit hostStays in
/-- Operands of a form of the realm have values of the realm. -/
theorem within_operandValues
    (belongs : value.Belongs realm size) :
    Within realm (AllBelong realm) size (operandValues scope value) := by
  refine Stays.bind within_look fun later shape grown (_ : True) => ?_
  split
  · exact within_operandsFrom .nil (belongs.mono grown)
  · exact stays_failWith fun _ _ => trivial

omit hostStays in
/-- The body of a procedure is evaluated in a fresh frame. -/
private theorem stays_enter
    {procedure : Procedure}
    (bodyBelong : AllBelong realm size procedure.body)
    (belong : AllBelong realm size operands) :
    Stays realm ends (Step.Belongs realm) size (enter procedure operands) := by
  refine (within_perform (.change Store.makes_newChild)).bind fun first inner grown _ => ?_
  refine (within_perform (Store.stays_bindFormals (belong.mono grown))).bind
    fun second _ more _ => ?_
  exact stays_body (bodyBelong.mono (le_trans grown more))

/-- Whatever is called, it is called with values of the realm. -/
theorem stays_apply
    (belongs : value.Belongs realm size)
    (belong : AllBelong realm size operands) :
    Stays realm ends (Step.Belongs realm) size (apply host value operands) := by
  unfold apply
  split
  case h_1 address =>
    have looked :
        Within realm (fun later procedure => AllBelong realm later (Procedure.body procedure)) size
          (view fun store => store.procedures[address]?.getD default) :=
      within_view fun _ reaches => reaches.holds.procedureAt address
    exact looked.bind fun later procedure grown bodyBelong =>
      stays_enter bodyBelong (belong.mono grown)
  case h_2 operation =>
    exact stays_answerPerform
      (operation.stays_apply (fun name => hostStays.function name belong) belong)
  case h_3 => exact Special.stays_escape belong
  case h_4 address =>
    split
    · have looked :
          Within realm (Parameter.Belongs realm) size
            (view fun store => store.parameters[address]?.getD default) :=
        within_view fun _ reaches => reaches.holds.parameterAt address
      exact looked.bind fun _ _ _ isParameter => stays_answer isParameter.1
    · exact stays_refuseCount
  case h_5 address =>
    have looked :
        Within realm (fun later object => Value.Belongs realm later (ForeignObject.content object))
          size (view fun store => store.foreigns[address]?.getD default) :=
      within_view fun _ reaches => reaches.holds.foreignAt address
    exact looked.bind fun later object grown isContent =>
      stays_answerPerform (hostStays.call isContent (belong.mono grown))
  case h_6 => exact stays_failTelling fun _ _ => trivial

omit hostStays in
/-- To tell where a fault came from takes no value out of the realm. -/
theorem stays_locate
    {form : Value}
    {result : Except Unwind Step}
    (outcome : Outcome realm (Step.Belongs realm) size result) :
    Stays realm ends (Step.Belongs realm) size (locate form result) := by
  match result, outcome with
  | .ok step, outcome =>
      exact .done outcome
  | .error (.fault cause), outcome =>
      change Stays realm ends (Step.Belongs realm) size (if cause.lacksExpression then _ else _)
      split
      case isTrue lacks =>
        refine stays_failTelling fun text later => ?_
        cases cause with
        | arity expected given expression => cases expression <;> trivial
        | raised value => cases lacks
        | _ => trivial
      case isFalse => exact stays_fail outcome
  | .error (.escape identity value), outcome =>
      exact .unwind outcome

/-- A special form is carried out with the operands that stand behind its keyword. -/
theorem stays_special
    {form : Value}
    {keyword : SpecialForm}
    (belongs : value.Belongs realm size) :
    Stays realm (Special.Rebinds realm) (Step.Belongs realm) size
      (special host scope form keyword value) := by
  refine (within_perform (Store.stays_listItems belongs)).bind fun later operands _ belong => ?_
  split
  · exact stays_failTelling fun _ _ => trivial
  · exact keyword.stays_script hostStays belong

/-- A callee that has been given its operands is applied to them. -/
theorem stays_applyLocated
    {form callee : Value}
    (belongs : callee.Belongs realm size)
    (belong : AllBelong realm size operands) :
    Stays realm ends (Step.Belongs realm) size
      (attempt (apply host callee operands) >>= locate form) :=
  (stays_apply hostStays belongs belong).attempt.bind fun _ _ _ outcome => stays_locate outcome

/-- A callee of the realm is carried out, expanded or called. -/
private theorem stays_dispatch
    {form callee : Value}
    (calleeBelongs : callee.Belongs realm size)
    (belongs : value.Belongs realm size) :
    Stays realm (Special.Rebinds realm) (Step.Belongs realm) size
      (dispatch host scope form callee value) := by
  unfold dispatch
  split
  · exact stays_special hostStays belongs
  · exact (Special.within_rewrite belongs).bind fun _ _ _ isExpansion => stays_tail isExpansion
  · refine (within_operandValues belongs).bind fun later operands grown belong => ?_
    exact stays_applyLocated hostStays (calleeBelongs.mono grown) belong

omit hostStays in
/-- What is bound or has to be evaluated at the head of a form belongs to the realm. -/
private def HeadBelongs (realm : Realm) (size : Sizes) : Head → Prop
  | .bound callee => callee.Belongs realm size
  | .operator form => form.Belongs realm size
  | _ => True

omit hostStays in
/-- The head of a form is looked at in the realm. -/
private theorem headOf_belongs
    {store : Store}
    (holds : store.Holds realm size)
    (belongs : value.Belongs realm size) :
    HeadBelongs realm size (headOf store scope value) := by
  unfold headOf
  split
  · split
    · trivial
    · split
      case h_1 callee found =>
        exact holds.lookup? found
      case h_2 => trivial
  · exact belongs

/-- A callee is looked up with the number of its operands. -/
private theorem stays_freeCallee
    {name : String} :
    StoreM.Stays realm (Value.Belongs realm) size
      ((StoreM.view fun store => store.listLength? value) >>= fun count =>
        Store.freeNameValue host scope count name) :=
  .bind (.view fun _ _ => trivial) fun _ _ _ (_ : True) => Store.stays_freeNameValue hostStays

/-- An application of the realm is carried out there. -/
theorem stays_script
    {address : Nat}
    (owned : realm.owns size address) :
    Stays realm (Special.Rebinds realm) (Step.Belongs realm) size
      (script host scope address) := by
  have looked :
      Within realm
        (fun later parts => HeadBelongs realm later parts.1 ∧ Value.Belongs realm later parts.2)
            size
        (view fun store =>
          let pair := store.pairAt address
          (headOf store scope pair.head, pair.tail)) := by
    refine within_view fun store reaches => ?_
    have inPair := reaches.holds.pairAt (realm.owns_mono owned reaches.grown)
    exact ⟨headOf_belongs reaches.holds inPair.1, inPair.2⟩
  refine looked.bind fun later parts _ inParts => ?_
  obtain ⟨head, operands⟩ := parts
  obtain ⟨headBelongs, operandsBelong⟩ := inParts
  dsimp only
  split
  · exact (within_operandValues operandsBelong).bind fun _ _ _ belong =>
      stays_answerPerform (hostStays.invoke _ belong)
  · exact stays_dispatch hostStays headBelongs operandsBelong
  · refine (within_perform (stays_freeCallee hostStays)).bind fun _ _ grown isCallee => ?_
    exact stays_dispatch hostStays isCallee (operandsBelong.mono grown)
  · exact (within_evaluate headBelongs).bind fun _ _ grown isCallee =>
      stays_dispatch hostStays isCallee (operandsBelong.mono grown)

end Application

namespace Evaluation

omit hostStays in
/-- The items of a vector are evaluated in order. -/
private theorem within_vectorItems
    {sofar items : List Value}
    (earlier : AllBelong realm size sofar)
    (belong : AllBelong realm size items) :
    Within realm (AllBelong realm) size (vectorItems scope sofar items) := by
  induction items generalizing size sofar with
  | nil => exact .done earlier.reverse
  | cons item rest inductionHypothesis =>
      unfold vectorItems
      dsimp only
      split
      · refine (within_evaluate belong.head).bind fun later value grown isValue => ?_
        exact inductionHypothesis (.cons isValue (earlier.mono grown)) (belong.tail.mono grown)
      · exact inductionHypothesis (.cons belong.head earlier) belong.tail

omit hostStays in
/-- A marked form is quoted, expanded, or refused. -/
theorem stays_marked
    {mark : Mark}
    {address : Nat} :
    Stays realm ends (Step.Belongs realm) size (marked scope value mark address) := by
  cases mark with
  | quote =>
      refine stays_answerFresh fun store reaches => ?_
      exact Store.makes_quoteValue (reaches.holds.markedAt address) store
        reaches.self
  | quasiquote =>
      have looked :
          Within realm (Value.Belongs realm) size (view fun store => store.markedAt address) :=
        within_view fun _ reaches => reaches.holds.markedAt address
      exact looked.bind fun _ _ _ isTemplate =>
        (Quasiquotation.within_value isTemplate).bind fun _ _ _ isValue => stays_answer isValue
  | unquote => exact stays_failTelling fun _ _ => trivial
  | unquoteSplicing => exact stays_failTelling fun _ _ => trivial

/-- Every form of the realm is evaluated within it. -/
theorem stays_script
    (belongs : value.Belongs realm size) :
    Stays realm (Special.Rebinds realm) (Step.Belongs realm) size (script host scope value) := by
  unfold script
  split
  case h_1 => exact (within_nameValue hostStays).bind fun _ _ _ isValue => stays_answer isValue
  case h_2 name home =>
    have looked (later : Sizes) (isHeld : Bool) :
        Within realm
          (fun later found => ∀ value, found = some value → Value.Belongs realm later value) later
          (view fun store => if isHeld then store.lookup? home name else none) := by
      refine within_view fun _ reaches _ found => ?_
      cases isHeld with
      | true => exact reaches.holds.lookup? found
      | false => cases found
    have found : Within realm (Value.Belongs realm) size
        (scopedNameValue host scope home name) := by
      refine Stays.bind within_reaches fun reached isHeld _ _ => ?_
      refine (looked reached isHeld).bind fun later found _ isFound => ?_
      split
      · exact .done (isFound _ rfl)
      · exact within_nameValue hostStays
    exact found.bind fun _ _ _ isValue => stays_answer isValue
  case h_3 address =>
    have looked :
        Within realm (AllBelong realm) size (view fun store => (store.vectorAt address).toList) :=
      within_view fun _ reaches =>
        reaches.holds.vectorAt (realm.ownsVector_mono belongs reaches.grown)
    exact looked.bind fun _ _ _ belong => (within_vectorItems .nil belong).bind
      fun _ _ _ areValues => stays_answerFresh (Store.makes_newVector_toArray areValues)
  case h_4 => exact stays_marked
  case h_5 address =>
    have looked :
        Within realm (AllBelong realm) size (view fun store => store.programAt address) :=
      within_view fun _ reaches => reaches.holds.programAt address
    exact looked.bind fun _ _ _ belong => stays_body belong
  case h_6 => exact Application.stays_script hostStays belongs
  case h_7 => exact stays_answer belongs

end Evaluation

/-- Whatever a step amounts to stays within the realm, up to the rebinding of parameters. -/
theorem Machine.stays_stepScript
    {step : Step}
    (belongs : step.Belongs realm size)
    {script : Script Step}
    (amounts : Machine.stepScript host step = .inr script) :
    Stays realm (Special.Rebinds realm) (Step.Belongs realm) size script := by
  cases step with
  | value value => cases amounts
  | tail scope form =>
      obtain rfl := Sum.inr.inj amounts
      exact Evaluation.stays_script hostStays belongs
  | apply callee operands =>
      obtain rfl := Sum.inr.inj amounts
      exact Application.stays_apply hostStays belongs.1 belongs.2
  | expand scope form =>
      obtain rfl := Sum.inr.inj amounts
      exact Special.stays_expandOnce belongs

/-- Whatever a step amounts to stays within the realm, if parameters are not steady. -/
theorem Machine.within_stepScript
    (free : ¬realm.steady)
    {step : Step}
    (belongs : step.Belongs realm size)
    {script : Script Step}
    (amounts : Machine.stepScript host step = .inr script) :
    Within realm (Step.Belongs realm) size script :=
  (Machine.stays_stepScript hostStays belongs amounts).mono fun _ _ _ rebinds => rebinds.stays free

end Hosted

end SmallScheme
