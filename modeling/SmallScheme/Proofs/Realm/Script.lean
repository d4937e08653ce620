import SmallScheme.Proofs.Realm.Action
import SmallScheme.Script.Basic

namespace SmallScheme

/-!
# Scripts within a realm

A script stays within a realm if its actions do, if it asks for nothing and hands over nothing but
what belongs to the realm, and if it goes on in this way with every value of the realm that it is
given.  It may come to one of the given ends; what it does from there on is looked at elsewhere.
-/

variable
  {realm : Realm}
  {size later : Sizes}
  {value : Value}
  {values : List Value}

theorem Step.Belongs.mono
    {step : Step}
    (belongs : step.Belongs realm size)
    (grown : size ≤ later) :
    step.Belongs realm later := by
  cases step with
  | value result => exact Value.Belongs.mono belongs grown
  | tail scope form => exact Value.Belongs.mono belongs grown
  | apply callee operands => exact belongs.imp (·.mono grown) (·.mono grown)
  | expand scope form => exact Value.Belongs.mono belongs grown

theorem Request.Belongs.mono
    {request : Request}
    (belongs : request.Belongs realm size)
    (grown : size ≤ later) :
    request.Belongs realm later := by
  cases request with
  | evaluate scope form => exact Value.Belongs.mono belongs grown
  | call callee operands => exact belongs.imp (·.mono grown) (·.mono grown)
  | finish step => exact Step.Belongs.mono belongs grown
  | reach scope home => exact belongs
  | endless => exact belongs

namespace Script

variable {First Answer : Type}

/--
The script stays within the realm until it comes to one of the ends.  Its answers are fine.
-/
inductive Stays
    (realm : Realm)
    (ends : Sizes → Script Answer → Prop)
    (fine : Sizes → Answer → Prop) : Sizes → Script Answer → Prop
  | arriving {size : Sizes} {script : Script Answer} :
      ends size script →
      Stays realm ends fine size script
  | done {size : Sizes} {answer : Answer} :
      fine size answer →
      Stays realm ends fine size (.done answer)
  | unwind {size : Sizes} {reason : Unwind} :
      reason.Belongs realm size →
      Stays realm ends fine size (.unwind reason)
  | viewing
      {size : Sizes}
      {Result : Type}
      {look : Store → Result}
      {next : Result → Script Answer} :
      (∀ store : Store,
        store.Reaches realm size →
        Stays realm ends fine store.sizes (next (look store))) →
      Stays realm ends fine size (.viewing look next)
  | acting
      {size : Sizes}
      {Result : Type}
      {action : StoreM Result}
      {next : Except Fault Result → Script Answer} :
      (∀ store : Store,
        store.Reaches realm size →
        store.Follows realm (action store).2) →
      (∀ store : Store,
        store.Reaches realm size →
        Stays realm ends fine (action store).2.sizes (next (action store).1)) →
      Stays realm ends fine size (.acting action next)
  | switching
      {size : Sizes}
      {Result : Type}
      {change : Context → Result × Context}
      {next : Result → Script Answer} :
      (∀ later context,
        size ≤ later →
        Context.Belongs realm later context →
        (change context).2.Belongs realm later) →
      (∀ later context,
        size ≤ later →
        Context.Belongs realm later context →
        Stays realm ends fine later (next (change context).1)) →
      Stays realm ends fine size (.switching change next)
  | asking {size : Sizes} {request : Request} {next : Except Unwind Value → Script Answer} :
      request.Belongs realm size →
      (∀ later result,
        size ≤ later →
        Outcome realm (Value.Belongs realm) later result →
        Stays realm ends fine later (next result)) →
      Stays realm ends fine size (.asking request next)
  | deferring {size : Sizes} {step : Step} {next : Except Unwind Step → Script Answer} :
      step.Belongs realm size →
      Stays realm ends fine size (next (.ok step)) →
      Stays realm ends fine size (.deferring step next)

variable
  {ends : Sizes → Script Answer → Prop}
  {fine : Sizes → Answer → Prop}

namespace Stays

/-- What the script comes to may be looked at more closely. -/
theorem mono
    {others : Sizes → Script Answer → Prop}
    {script : Script Answer}
    (stays : Stays realm ends fine size script)
    (included :
      ∀ later script,
        size ≤ later →
        ends later script →
        Stays realm others fine later script) :
    Stays realm others fine size script := by
  induction stays with
  | arriving arrived =>
      exact included _ _ (le_refl _) arrived
  | done isFine =>
      exact .done isFine
  | unwind belongs =>
      exact .unwind belongs
  | viewing _ inductionHypothesis =>
      exact .viewing fun store reaches =>
        inductionHypothesis store reaches fun later script more =>
          included later script (le_trans reaches.grown more)
  | acting keeps _ inductionHypothesis =>
      refine .acting keeps fun store reaches =>
        inductionHypothesis store reaches fun later script more => included later script ?_
      exact le_trans (le_trans reaches.grown (keeps store reaches).grown) more
  | switching keeps _ inductionHypothesis =>
      exact .switching keeps fun later context grown belongs =>
        inductionHypothesis later context grown belongs fun last script more =>
          included last script (le_trans grown more)
  | asking belongs _ inductionHypothesis =>
      exact .asking belongs fun later result grown outcome =>
        inductionHypothesis later result grown outcome fun last script more =>
          included last script (le_trans grown more)
  | deferring belongs _ inductionHypothesis =>
      exact .deferring belongs (inductionHypothesis included)

/-- What follows goes on from where the script has come to. -/
theorem bind
    {fineFirst : Sizes → First → Prop}
    {first : Script First}
    {rest : First → Script Answer}
    (stays : Stays realm (fun _ _ => False) fineFirst size first)
    (continues :
      ∀ later answer,
        size ≤ later →
        fineFirst later answer →
        Stays realm ends fine later (rest answer)) :
    Stays realm ends fine size (first >>= rest) := by
  change Stays realm ends fine size (first.bind rest)
  induction stays with
  | arriving impossible =>
      exact impossible.elim
  | done isFine =>
      exact continues _ _ (le_refl _) isFine
  | unwind belongs =>
      exact .unwind belongs
  | viewing _ inductionHypothesis =>
      exact .viewing fun store reaches =>
        inductionHypothesis store reaches fun later answer more =>
          continues later answer (le_trans reaches.grown more)
  | acting keeps _ inductionHypothesis =>
      refine .acting keeps fun store reaches =>
        inductionHypothesis store reaches fun later answer more => continues later answer ?_
      exact le_trans (le_trans reaches.grown (keeps store reaches).grown) more
  | switching keeps _ inductionHypothesis =>
      exact .switching keeps fun later context grown belongs =>
        inductionHypothesis later context grown belongs fun last answer more =>
          continues last answer (le_trans grown more)
  | asking belongs _ inductionHypothesis =>
      exact .asking belongs fun later result grown outcome =>
        inductionHypothesis later result grown outcome fun last answer more =>
          continues last answer (le_trans grown more)
  | deferring belongs _ inductionHypothesis =>
      exact .deferring belongs (inductionHypothesis continues)

/-- A script that is watched does the same, and answers with how it has ended. -/
theorem attempt
    {script : Script Answer}
    (stays : Stays realm (fun _ _ => False) fine size script) :
    Stays realm (fun _ _ => False) (Outcome realm fine) size script.attempt := by
  induction stays with
  | arriving impossible =>
      exact impossible.elim
  | done isFine =>
      exact .done isFine
  | unwind belongs =>
      exact .done belongs
  | viewing _ inductionHypothesis =>
      exact .viewing inductionHypothesis
  | acting keeps _ inductionHypothesis =>
      exact .acting keeps inductionHypothesis
  | switching keeps _ inductionHypothesis =>
      exact .switching keeps inductionHypothesis
  | asking belongs _ inductionHypothesis =>
      exact .asking belongs inductionHypothesis
  | deferring belongs _ inductionHypothesis =>
      exact .deferring belongs inductionHypothesis

end Stays

/-- The script stays within the realm and comes to nothing else but an end of its own. -/
abbrev Within
    (realm : Realm)
    (fine : Sizes → Answer → Prop)
    (size : Sizes)
    (script : Script Answer) : Prop :=
  Stays realm (fun _ _ => False) fine size script

/-! The parts that constructs are made of. -/

/-- What is looked at is fine if it is in every store that may be there. -/
theorem within_view
    {look : Store → Answer}
    (isFine :
      ∀ store : Store,
        store.Reaches realm size →
        fine store.sizes (look store)) :
    Within realm fine size (view look) :=
  .viewing fun store reaches => .done (isFine store reaches)

/-- What is looked at matters only in that it has been looked at. -/
theorem within_look
    {look : Store → Answer} :
    Within realm (fun _ _ => True) size (view look) :=
  within_view fun _ _ => trivial

/-- A fault of the realm may be thrown. -/
theorem stays_fail
    {fault : Fault}
    (belongs : fault.Belongs realm size) :
    Stays realm ends fine size (fail fault) :=
  .unwind belongs

/-- A result of the realm is passed on, or unwound with. -/
theorem stays_ofResult
    {result : Except Unwind Answer}
    (outcome : Outcome realm fine size result) :
    Stays realm ends fine size (ofResult result) := by
  cases result with
  | ok answer => exact .done outcome
  | error reason => exact .unwind outcome

/-- To wait for ever takes nothing out of the realm. -/
theorem within_wait :
    Within realm (Value.Belongs realm) size wait :=
  .asking trivial fun _ _ _ outcome => stays_ofResult outcome

/-- A fault of the realm is reported, if its message has an end. -/
theorem stays_report
    {fault : Fault}
    (belongs : fault.Belongs realm size) :
    Stays realm ends fine size (report fault) := by
  unfold report
  split
  · exact within_wait.bind fun later _ grown _ => stays_fail (belongs.mono grown)
  · exact stays_fail belongs

/-- An action of the store may be performed if it stays within the realm. -/
theorem within_perform
    {action : StoreM Answer}
    (stays : StoreM.Stays realm fine size action) :
    Within realm fine size (perform action) := by
  refine .acting (fun store reaches => (stays store reaches).1) fun store reaches => ?_
  have isFine := (stays store reaches).2
  generalize (action store).1 = result at isFine
  generalize (action store).2 = after at isFine
  cases result with
  | ok answer => exact .done isFine
  | error fault => exact stays_report isFine

/-- A text belongs to every realm. -/
theorem within_writing :
    Within realm (fun _ _ => True) size (writing value) := by
  refine within_look.bind fun later text _ _ => ?_
  cases text with
  | some text => exact .done trivial
  | none => exact within_wait.bind fun _ _ _ _ => .done trivial

/-- A fault that quotes a value carries a text only. -/
theorem stays_failTelling
    {fault : String → Fault}
    (belongs : ∀ text size, (fault text).Belongs realm size) :
    Stays realm ends fine size (failTelling value fault) :=
  within_writing.bind fun _ text _ _ => stays_fail (belongs text _)

/-- Whether a scope is there is a truth value. -/
theorem within_reaches
    {scope home : Scope} :
    Within realm (fun _ _ => True) size (reaches scope home) :=
  have within : Within realm (Value.Belongs realm) size (.asking (.reach scope home) ofResult) :=
    .asking trivial fun _ _ _ outcome => stays_ofResult outcome
  within.bind fun _ _ _ _ => .done trivial

/-- A fault that only describes values carries none. -/
theorem stays_failWith
    {fault : Store → Fault}
    (belongs : ∀ store size, (fault store).Belongs realm size) :
    Stays realm ends fine size (failWith fault) :=
  .viewing fun store _ => .unwind (belongs store _)

theorem stays_refuseCount
    {expected given : Nat} :
    Stays realm ends fine size (refuseCount expected given) :=
  .unwind trivial

section Values

variable {scope : Scope}

/-- A form of the realm has a value there. -/
theorem within_evaluate
    (belongs : value.Belongs realm size) :
    Within realm (Value.Belongs realm) size (evaluate scope value) :=
  .asking belongs fun _ _ _ outcome => stays_ofResult outcome

/-- A call with values of the realm has a value there. -/
theorem within_call
    (belongs : value.Belongs realm size)
    (belong : AllBelong realm size values) :
    Within realm (Value.Belongs realm) size (call value values) :=
  .asking ⟨belongs, belong⟩ fun _ _ _ outcome => stays_ofResult outcome

/-- A call that is watched has an outcome of the realm. -/
theorem within_attemptCall
    (belongs : value.Belongs realm size)
    (belong : AllBelong realm size values) :
    Within realm (Outcome realm (Value.Belongs realm)) size (attemptCall value values) :=
  .asking ⟨belongs, belong⟩ fun _ _ _ outcome => .done outcome

/-- A step of the realm is finished there. -/
theorem within_finish
    {step : Step}
    (belongs : step.Belongs realm size) :
    Within realm (Value.Belongs realm) size (finish step) :=
  .asking belongs fun _ _ _ outcome => stays_ofResult outcome

/-- Forms of the realm are evaluated in order. -/
theorem within_evaluateAll
    {sofar forms : List Value}
    (earlier : AllBelong realm size sofar)
    (belong : AllBelong realm size forms) :
    Within realm (AllBelong realm) size (evaluateAll scope sofar forms) := by
  induction forms generalizing size sofar with
  | nil => exact .done earlier.reverse
  | cons form rest inductionHypothesis =>
      refine (within_evaluate belong.head).bind fun later value grown isValue => ?_
      exact inductionHypothesis (.cons isValue (earlier.mono grown)) (belong.tail.mono grown)

/-- The name that a construct binds is a text. -/
theorem within_nameFor
    {construct : String}
    {form : Value} :
    Within realm (fun _ _ => True) size (nameFor construct form) := by
  unfold nameFor
  split
  · exact .done trivial
  · exact stays_failTelling fun _ _ => trivial

end Values

section Steps

variable
  {ends : Sizes → Script Step → Prop}
  {scope : Scope}

/-- A value of the realm is an answer there. -/
theorem stays_answer
    (belongs : value.Belongs realm size) :
    Stays realm ends (Step.Belongs realm) size (answer value) :=
  .done belongs

/-- A fresh object of the realm is an answer there. -/
theorem stays_answerFresh
    {make : Store → Value × Store}
    (makes : Store.Makes realm (Value.Belongs realm) size make) :
    Stays realm ends (Step.Belongs realm) size (answerFresh make) :=
  (within_perform (.change makes)).bind fun _ _ _ belongs => stays_answer belongs

/-- The value that an action has come to is the answer. -/
theorem stays_answerPerform
    {action : StoreM Value}
    (stays : StoreM.Stays realm (Value.Belongs realm) size action) :
    Stays realm ends (Step.Belongs realm) size (do answer (← perform action)) :=
  (within_perform stays).bind fun _ _ _ belongs => stays_answer belongs

/-- A step of the realm may be left to the caller. -/
theorem stays_defer
    {step : Step}
    (belongs : step.Belongs realm size) :
    Stays realm ends (Step.Belongs realm) size (defer step) :=
  .deferring belongs (.done belongs)

/-- A form in tail position is deferred or evaluated. -/
theorem stays_tail
    (belongs : value.Belongs realm size) :
    Stays realm ends (Step.Belongs realm) size (tail scope value) := by
  unfold tail
  split
  · exact stays_defer belongs
  · exact stays_defer belongs
  · exact (within_evaluate belongs).bind fun _ _ _ isValue => stays_answer isValue

/-- The forms of a body are evaluated, and the last is in tail position. -/
theorem stays_body
    {forms : List Value}
    (belong : AllBelong realm size forms) :
    Stays realm ends (Step.Belongs realm) size (body scope forms) := by
  induction forms generalizing size with
  | nil => exact stays_answer trivial
  | cons form rest inductionHypothesis =>
      cases rest with
      | nil => exact stays_tail belong.head
      | cons second others =>
          refine (within_evaluate belong.head).bind fun later _ grown _ => ?_
          exact inductionHypothesis (belong.tail.mono grown)

end Steps

end Script

end SmallScheme
