import SmallScheme.Proofs.Realm.Special

namespace SmallScheme

/-!
# Brackets and transformers within a realm

The special forms that bracket the evaluation of something else, and those that define and use
transformers, stay within the realm of their operands.  The rebinding of parameters stays within it
if parameters are not steady.
-/

open Script

variable
  {realm : Realm}
  {size : Sizes}
  {ends : Sizes → Script Step → Prop}
  {scope : Scope}
  {value : Value}
  {operands forms : List Value}

/-- The condition that a handler is called with belongs to the realm. -/
theorem Fault.Belongs.handled?
    {cause : Fault}
    (belongs : cause.Belongs realm size)
    (handled : cause.handled? = some value) :
    value.Belongs realm size := by
  cases cause with
  | raised raised =>
      cases handled
      exact belongs
  | structured condition =>
      cases handled
      trivial
  | _ => cases handled

namespace Special

/-! Parameters. -/

/-- The value of a parameter has been converted within the realm. -/
theorem stays_parameter
    (belong : AllBelong realm size operands) :
    Stays realm ends (Step.Belongs realm) size (parameter scope operands) := by
  unfold parameter
  split
  · refine (within_evaluate belong.head).bind fun later value grown isValue => ?_
    exact stays_answerFresh (Store.makes_newParameter ⟨isValue, nofun⟩)
  · refine (within_evaluate belong.head).bind fun first value grown isValue => ?_
    refine (within_evaluate (belong.tail.head.mono grown)).bind
      fun second converter more isConverter => ?_
    refine (within_call isConverter (.one (isValue.mono more))).bind
      fun third converted most isConverted => ?_
    refine stays_answerFresh (Store.makes_newParameter ⟨isConverted, ?_⟩)
    rintro _ ⟨⟩
    exact isConverter.mono most
  · exact stays_refuseCount

/-- The new values belong to the realm. -/
def ReboundBelong (realm : Realm) (size : Sizes) (rebound : List (Nat × Value)) : Prop :=
  ∀ entry ∈ rebound, entry.2.Belongs realm size

theorem ReboundBelong.nil :
    ReboundBelong realm size [] :=
  fun _ impossible => nomatch impossible

theorem ReboundBelong.mono
    {later : Sizes}
    {rebound : List (Nat × Value)}
    (belong : ReboundBelong realm size rebound)
    (grown : size ≤ later) :
    ReboundBelong realm later rebound :=
  fun entry member => (belong entry member).mono grown

/-- The value that a parameter is to have belongs to the realm. -/
private theorem within_rebindingOf
    (belongs : value.Belongs realm size) :
    Within realm (fun later entry => Value.Belongs realm later entry.2) size
      (rebindingOf scope value) := by
  unfold rebindingOf
  refine (within_perform (Store.stays_listItems belongs)).bind fun first parts grown inParts => ?_
  split
  case h_1 parameterForm valueForm =>
    refine (within_evaluate inParts.head).bind fun second parameter more isParameter => ?_
    split
    case h_1 address =>
      refine (within_evaluate (inParts.tail.head.mono more)).bind fun third value most isValue => ?_
      have looked :
          Within realm
            (fun later found => ∀ converter, found = some converter →
                Value.Belongs realm later converter)
            third (view fun store => store.parameters[address]?.bind Parameter.converter) := by
        refine within_view fun store reaches converter found => ?_
        obtain ⟨parameter, present, isConverter⟩ := Option.bind_eq_some_iff.mp found
        exact (reaches.holds.parameters parameter (Array.mem_of_getElem? present)).2 converter
          isConverter
      refine looked.bind fun fourth found last inFound => ?_
      cases found with
      | none => exact .done (isValue.mono last)
      | some converter =>
          exact (within_call (inFound converter rfl) (.one (isValue.mono last))).bind
            fun _ _ _ isConverted => .done isConverted
    case h_2 => exact stays_failTelling fun _ _ => trivial
  case h_2 => exact stays_failTelling fun _ _ => trivial

/-- All values that parameters are to have belong to the realm. -/
theorem within_rebindingsFrom
    {sofar : List (Nat × Value)}
    {entries : List Value}
    (earlier : ReboundBelong realm size sofar)
    (belong : AllBelong realm size entries) :
    Within realm (ReboundBelong realm) size (rebindingsFrom scope sofar entries) := by
  induction entries generalizing size sofar with
  | nil => exact .done fun entry member => earlier entry (List.mem_reverse.mp member)
  | cons entry rest inductionHypothesis =>
      refine (within_rebindingOf belong.head).bind fun later rebound grown isRebound => ?_
      exact inductionHypothesis (List.forall_mem_cons.mpr ⟨isRebound, earlier.mono grown⟩)
        (belong.tail.mono grown)

/-- Forms are about to be evaluated while parameters have other values. -/
inductive Rebinds (realm : Realm) (size : Sizes) : Script Step → Prop
  | rebinding {scope : Scope} {rebound : List (Nat × Value)} {forms : List Value} :
      ReboundBelong realm size rebound →
      AllBelong realm size forms →
      Rebinds realm size (whileRebound scope rebound forms)

theorem Rebinds.mono
    {later : Sizes}
    {script : Script Step}
    (rebinds : Rebinds realm size script)
    (grown : size ≤ later) :
    Rebinds realm later script := by
  cases rebinds with
  | rebinding reboundBelong formsBelong =>
      exact .rebinding (reboundBelong.mono grown) (formsBelong.mono grown)

/-- A form stays within the realm until it rebinds parameters. -/
theorem stays_rebinding
    (belong : AllBelong realm size operands) :
    Stays realm (Rebinds realm) (Step.Belongs realm) size (rebinding scope operands) := by
  unfold rebinding
  split
  · exact stays_refuseCount
  · refine (within_perform (Store.stays_listItems belong.head)).bind
      fun first entries grown inEntries => ?_
    refine (within_rebindingsFrom .nil inEntries).bind fun second rebound more isRebound => ?_
    exact .arriving (.rebinding isRebound (belong.tail.mono (le_trans grown more)))

/-- What has been evaluated up to its tail position, carried out to the end. -/
theorem within_bodyValue
    (belong : AllBelong realm size forms) :
    Within realm (Value.Belongs realm) size (bodyValue scope forms) :=
  (stays_body belong).bind fun _ _ _ belongs => within_finish belongs

/-- How something has ended is how the construct ends. -/
theorem stays_answerResult
    {result : Except Unwind Value}
    (outcome : Outcome realm (Value.Belongs realm) size result) :
    Stays realm ends (Step.Belongs realm) size (ofResult result >>= answer) :=
  (stays_ofResult outcome).bind fun _ _ _ isValue => stays_answer isValue

section Free

variable (free : ¬realm.steady)

include free

/-- A parameter is given a new value, and the old one is handed back. -/
private theorem makes_setParameter
    {address : Nat}
    (belongs : value.Belongs realm size) :
    Store.Makes realm (Value.Belongs realm) size fun store =>
      ((store.parameters[address]?.getD default).value, store.setParameter address value) := by
  intro store reaches
  suffices changed : (store.setParameter address value).Holds realm store.sizes from
    ⟨⟨le_refl _, changed, fun isSteady => (free isSteady).elim⟩,
      (reaches.holds.parameterAt address).1⟩
  refine { reaches.holds with parameters := ?_ }
  unfold Store.setParameter
  dsimp only
  refine Store.forall_mem_modify reaches.holds.parameters fun parameter member => ?_
  exact ⟨belongs.mono reaches.grown, (reaches.holds.parameters parameter member).2⟩

/-- The values that are exchanged belong to the realm, and so do the old ones. -/
private theorem makes_exchange
    {sofar rebound : List (Nat × Value)}
    (earlier : ReboundBelong realm size sofar)
    (belong : ReboundBelong realm size rebound) :
    Store.Makes realm (ReboundBelong realm) size fun store => exchange sofar store rebound := by
  induction rebound generalizing size sofar with
  | nil => exact .nothing fun _ grown => earlier.mono grown
  | cons entry rest inductionHypothesis =>
      obtain ⟨address, value⟩ := entry
      obtain ⟨isValue, others⟩ := List.forall_mem_cons.mp belong
      have isNew : value.Belongs realm size := isValue
      exact (makes_setParameter free isNew).andThen fun _ _ grown isPrevious =>
        inductionHypothesis (List.forall_mem_cons.mpr ⟨isPrevious, earlier.mono grown⟩)
          (ReboundBelong.mono others grown)

/-- Parameters are given old values of the realm back. -/
private theorem stays_restore
    {previous : List (Nat × Value)}
    {result : Except Unwind Value}
    (belong : ReboundBelong realm size previous)
    (outcome : Outcome realm (Value.Belongs realm) size result) :
    Stays realm ends (Step.Belongs realm) size (restore previous result) := by
  have restores :
      StoreM.Stays realm (fun _ _ => True) size
        (StoreM.change fun store => ((), (exchange [] store previous).2)) :=
    .change ((makes_exchange free .nil belong).map (fun _ => ()) fun _ _ _ _ => trivial)
  exact (within_perform restores).bind fun later _ grown _ =>
    stays_answerResult (outcome.mono grown)

/-- The rebinding of parameters stays within the realm if parameters are not steady. -/
theorem Rebinds.stays
    {script : Script Step}
    (rebinds : Rebinds realm size script) :
    Stays realm ends (Step.Belongs realm) size script := by
  cases rebinds with
  | @rebinding scope rebound forms reboundBelong formsBelong =>
      have exchanges := makes_exchange free .nil reboundBelong
      refine (within_perform (.change exchanges)).bind fun first previous grown isPrevious => ?_
      refine (within_perform (.change Store.makes_newChild)).bind fun second inner more _ => ?_
      have formsLater := formsBelong.mono (le_trans grown more)
      refine (within_bodyValue formsLater).attempt.bind fun third result most outcome => ?_
      exact stays_restore free (isPrevious.mono (le_trans more most)) outcome

end Free

/-! Namespaces, escapes, winds and handlers. -/

/-- To use a namespace changes no binding. -/
theorem stays_namespaceUse
    (belong : AllBelong realm size operands) :
    Stays realm ends (Step.Belongs realm) size (namespaceUse scope operands) := by
  unfold namespaceUse
  split
  · have use {later : Sizes} {name : String} :
        Stays realm ends (Step.Belongs realm) later
          (perform (StoreM.change fun store => ((), store.useNamespace scope name)) >>= fun _ =>
            answer .unspecified) :=
      (within_perform Store.stays_useNamespace).bind fun _ _ _ _ => stays_answer trivial
    dsimp only
    split
    · exact use
    · refine (within_evaluate belong.head).bind fun later value _ _ => ?_
      split
      · exact Stays.bind within_look fun _ _ _ _ => use
      · exact .bind (stays_failTelling fun _ _ => trivial) fun _ _ _ (_ : True) => use
  · exact stays_refuseCount

/-- What a receiver is left with belongs to the realm. -/
private theorem stays_leaveReceiver
    {identity : Nat}
    {result : Except Unwind Value}
    (outcome : Outcome realm (Value.Belongs realm) size result) :
    Stays realm ends (Step.Belongs realm) size (leaveReceiver identity result) := by
  refine .switching (fun _ _ _ belongs => belongs) fun later context grown _ => ?_
  match result, outcome with
  | .ok value, outcome =>
      exact stays_answer (Value.Belongs.mono outcome grown)
  | .error (.fault cause), outcome =>
      exact .unwind (Fault.Belongs.mono outcome grown)
  | .error (.escape target value), outcome =>
      have isValue : value.Belongs realm later := Value.Belongs.mono outcome grown
      dsimp only
      split
      · exact stays_answer isValue
      · exact .unwind isValue

/-- The procedure to escape with belongs to every realm. -/
theorem stays_escaping
    (belong : AllBelong realm size operands) :
    Stays realm ends (Step.Belongs realm) size (escaping scope operands) := by
  unfold escaping
  split
  · refine (within_evaluate belong.head).bind fun first receiver grown isReceiver => ?_
    refine .switching (fun _ _ _ belongs => belongs) fun second context more _ => ?_
    have operand (identity : Nat) : (Value.escape identity).Belongs realm second := trivial
    exact (within_attemptCall (isReceiver.mono more) (.one (operand _))).bind
      fun _ _ _ outcome => stays_leaveReceiver outcome
  · exact stays_refuseCount

/-- What is escaped with belongs to the realm. -/
theorem stays_escape
    {identity : Nat}
    (belong : AllBelong realm size operands) :
    Stays realm ends (Step.Belongs realm) size (escape identity operands) := by
  refine .switching (fun _ _ _ belongs => belongs) fun later context grown _ => ?_
  change Stays realm ends (Step.Belongs realm) later
    (if context.escapes.contains identity then _ else _)
  split
  · split
    · exact .unwind (show Value.unspecified.Belongs realm later from trivial)
    · exact .unwind (show Value.Belongs realm later _ from belong.head.mono grown)
    · exact stays_refuseCount
  · exact stays_fail trivial

/-- All three procedures of a wind are called within the realm. -/
theorem stays_wind
    (belong : AllBelong realm size operands) :
    Stays realm ends (Step.Belongs realm) size (wind scope operands) := by
  unfold wind
  split
  · refine (within_evaluate belong.head).bind fun first before grown isBefore => ?_
    refine (within_evaluate (belong.tail.head.mono grown)).bind fun second thunk more isThunk => ?_
    refine (within_evaluate (belong.tail.tail.head.mono (le_trans grown more))).bind
      fun third after most isAfter => ?_
    refine (within_call (isBefore.mono (le_trans more most)) .nil).bind fun fourth _ last _ => ?_
    refine (within_attemptCall (isThunk.mono (le_trans most last)) .nil).bind
      fun fifth result grownThunk outcome => ?_
    exact (within_call (isAfter.mono (le_trans last grownThunk)) .nil).bind
      fun sixth _ grownAfter _ => stays_answerResult (outcome.mono grownAfter)
  · exact stays_refuseCount

/-- A handler of the realm is called with a condition of the realm. -/
private theorem stays_offer
    (belongs : value.Belongs realm size) :
    Stays realm ends (Step.Belongs realm) size (offer value) := by
  have popped {later : Sizes} {context : Context} (inContext : context.Belongs realm later) :
      (Context.popHandler context).2.Belongs realm later ∧
        ∀ handler, (Context.popHandler context).1 = some handler → handler.Belongs realm later := by
    obtain ⟨handlers, escapes, lastEscape⟩ := context
    cases handlers with
    | nil => exact ⟨inContext, nofun⟩
    | cons handler rest =>
        refine ⟨AllBelong.tail inContext, ?_⟩
        rintro _ ⟨⟩
        exact AllBelong.head inContext
  refine .switching (fun _ _ _ belongs => (popped belongs).1)
    fun first context grown inContext => ?_
  have isHandler := (popped inContext).2
  cases found : (Context.popHandler context).1 with
  | none => exact stays_fail (show (Fault.raised value).Belongs realm first from belongs.mono grown)
  | some handler =>
      have handlerBelongs := isHandler handler found
      refine (within_attemptCall handlerBelongs (.one (belongs.mono grown))).bind
        fun second result more outcome => ?_
      refine .switching (fun last context most inContext => ?_) fun last context most _ => ?_
      · exact AllBelong.cons (handlerBelongs.mono (le_trans more most)) inContext
      · exact stays_answerResult (outcome.mono most)

/-- The condition that is raised belongs to the realm. -/
theorem stays_continuableRaise
    (belong : AllBelong realm size operands) :
    Stays realm ends (Step.Belongs realm) size (continuableRaise scope operands) := by
  unfold continuableRaise
  split
  · exact (within_evaluate belong.head).bind fun _ _ _ isValue => stays_offer isValue
  · exact stays_refuseCount

/-- A handler is called with the condition, or the fault goes on. -/
private theorem stays_handle
    {cause : Fault}
    (belongs : value.Belongs realm size)
    (causeBelongs : cause.Belongs realm size) :
    Stays realm ends (Step.Belongs realm) size (handle value cause) := by
  unfold handle
  split
  case h_1 => exact stays_fail causeBelongs
  case h_2 condition handled =>
    refine (within_call belongs (.one (causeBelongs.handled? handled))).bind fun _ _ _ _ => ?_
    split
    · exact stays_answer trivial
    · exact stays_failTelling fun _ _ => trivial

/-- A handler that is installed belongs to the realm. -/
theorem stays_handling
    (belong : AllBelong realm size operands) :
    Stays realm ends (Step.Belongs realm) size (handling scope operands) := by
  unfold handling
  split
  · refine (within_evaluate belong.head).bind fun first handler grown isHandler => ?_
    refine (within_evaluate (belong.tail.head.mono grown)).bind fun second thunk more isThunk => ?_
    split
    · refine .switching (fun last context most inContext => ?_) fun third context most _ => ?_
      · exact AllBelong.cons (isHandler.mono (le_trans more most)) inContext
      · refine (within_attemptCall (isThunk.mono most) .nil).bind
          fun fourth result grownThunk outcome => ?_
        refine .switching (fun last context _ inContext => ?_) fun fifth context last _ => ?_
        · obtain ⟨handlers, escapes, lastEscape⟩ := context
          cases handlers with
          | nil => exact inContext
          | cons handler rest => exact AllBelong.tail inContext
        · have grownHandler := le_trans more (le_trans most (le_trans grownThunk last))
          match result, outcome with
          | .ok value, outcome => exact stays_answer (Value.Belongs.mono outcome last)
          | .error (.fault cause), outcome =>
              exact stays_handle (isHandler.mono grownHandler) (Fault.Belongs.mono outcome last)
          | .error (.escape target value), outcome =>
              exact .unwind (Unwind.Belongs.mono outcome last)
    · exact stays_failTelling fun _ _ => trivial
  · exact stays_refuseCount

end Special

end SmallScheme
