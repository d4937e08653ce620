import SmallScheme.Proofs.Moment.Surroundings
import SmallScheme.Proofs.Realm.Run

namespace SmallScheme

/-!
# Rebinding leaves the realm and comes back

Where everything belongs to the realm, the rebinding of parameters is all that can make a difference
to a parameter that exists.  What it exchanges at the start is exchanged back at the end, however
often it names a parameter.
-/

open Script

/-- The value that rebinding gives to a parameter; the last one counts. -/
def Special.newValue? (rebound : List (Nat × Value)) (address : Nat) : Option Value :=
  rebound.reverse.lookup address

/-- The parameter while it is rebound. -/
def Parameter.rebound
    (parameter : Parameter)
    (rebound : List (Nat × Value))
    (address : Nat) : Parameter :=
  { parameter with value := (Special.newValue? rebound address).getD parameter.value }

variable
  {address : Nat}
  {value : Value}
  {rebound sofar : List (Nat × Value)}
  {parameter : Parameter}
  {store : Store}

/-- A list of one entry finds its own address only. -/
private theorem lookup_singleton
    (entry : Nat × Value) :
    [entry].lookup address = if address = entry.1 then some entry.2 else none := by
  by_cases same : address = entry.1
  · rw [if_pos same, same]
    exact List.lookup_cons_self
  · rw [if_neg same]
    rw [List.lookup_cons, beq_eq_false_iff_ne.mpr same]
    rfl

namespace Special

/-- A rebinding at the head gives way to later ones of the same parameter. -/
theorem newValue?_cons
    (entry : Nat × Value) :
    newValue? (entry :: rebound) address =
      (newValue? rebound address).or (if address = entry.1 then some entry.2 else none) := by
  unfold newValue?
  rw [List.reverse_cons, List.lookup_append, lookup_singleton]

end Special

/-- A parameter that is not rebound stays. -/
theorem Parameter.rebound_of_none
    (unbound : Special.newValue? rebound address = none) :
    parameter.rebound rebound address = parameter := by
  simp [Parameter.rebound, unbound]

/-- A rebound parameter has its new value, and all else as before. -/
theorem Parameter.rebound_of_some
    (bound : Special.newValue? rebound address = some value) :
    parameter.rebound rebound address = { parameter with value := value } := by
  simp [Parameter.rebound, bound]

namespace Store

/-- To set a parameter changes the value at its address only. -/
theorem parameters_setParameter
    {target : Nat}
    (found : store.parameters[address]? = some parameter) :
    (store.setParameter target value).parameters[address]? =
      some { parameter with value := if address = target then value else parameter.value } := by
  unfold setParameter
  by_cases same : address = target
  · subst same
    simp [Array.getElem?_modify, found]
  · simp [Array.getElem?_modify, Ne.symm same, same, found]

/-- Exchanging gives the parameter its new value. -/
theorem parameters_exchange
    (found : store.parameters[address]? = some parameter) :
    (Special.exchange sofar store rebound).2.parameters[address]? =
      some (parameter.rebound rebound address) := by
  induction rebound generalizing sofar store parameter with
  | nil => exact found
  | cons entry rest inductionHypothesis =>
      obtain ⟨target, value⟩ := entry
      rw [Special.exchange, inductionHypothesis (parameters_setParameter found)]
      unfold Parameter.rebound
      rw [Special.newValue?_cons]
      cases Special.newValue? rest address <;> by_cases same : address = target <;> simp [same]

/-- What is exchanged is remembered; the first value is what the parameter had before. -/
private theorem lookup_exchange
    (found : store.parameters[address]? = some parameter) :
    (Special.exchange sofar store rebound).1.reverse.lookup address =
      (sofar.reverse.lookup address).or
        ((Special.newValue? rebound address).map fun _ => parameter.value) := by
  induction rebound generalizing sofar store parameter with
  | nil => simp [Special.exchange, Special.newValue?]
  | cons entry rest inductionHypothesis =>
      obtain ⟨target, value⟩ := entry
      rw [Special.exchange, inductionHypothesis (parameters_setParameter found),
        Special.newValue?_cons, List.reverse_cons, List.lookup_append, lookup_singleton]
      by_cases same : address = target
      · subst same
        cases sofar.reverse.lookup address <;> cases Special.newValue? rest address <;>
          simp [found]
      · cases sofar.reverse.lookup address <;> cases Special.newValue? rest address <;>
          simp [same]

/-- Whatever else has happened, what has been exchanged is exchanged back. -/
theorem parameters_restore
    {later : Store}
    (found : store.parameters[address]? = some parameter)
    (foundLater : later.parameters[address]? = some (parameter.rebound rebound address)) :
    (Special.exchange [] later (Special.exchange [] store rebound).1).2.parameters[address]? =
      some parameter := by
  have remembered :
      Special.newValue? (Special.exchange [] store rebound).1 address =
        (Special.newValue? rebound address).map fun _ => parameter.value := by
    exact lookup_exchange found
  rw [parameters_exchange foundLater]
  unfold Parameter.rebound
  rw [remembered]
  cases Special.newValue? rebound address <;> rfl

/-- Rebinding makes no pairs and no vectors. -/
theorem sizes_exchange :
    (Special.exchange sofar store rebound).2.sizes = store.sizes := by
  induction rebound generalizing sofar store with
  | nil => rfl
  | cons entry rest inductionHypothesis => exact inductionHypothesis

end Store

/-! Everything belongs to the whole realm. -/

section Whole

variable {size : Sizes}

/-- Every value belongs to the whole store. -/
theorem Value.belongs_whole
    (value : Value) :
    value.Belongs .whole size := by
  cases value <;> trivial

/-- All values belong to the whole store. -/
theorem allBelong_whole
    (values : List Value) :
    AllBelong .whole size values :=
  fun value _ => value.belongs_whole

/-- Every reason to unwind belongs to the whole store. -/
theorem Unwind.belongs_whole
    (reason : Unwind) :
    reason.Belongs .whole size := by
  cases reason with
  | fault cause =>
      cases cause with
      | raised value => exact value.belongs_whole
      | _ => trivial
  | escape identity value => exact value.belongs_whole

/-- Every step belongs to the whole store. -/
theorem Step.belongs_whole
    (step : Step) :
    step.Belongs .whole size := by
  cases step with
  | value result => exact result.belongs_whole
  | tail scope form => exact form.belongs_whole
  | apply callee operands => exact ⟨callee.belongs_whole, allBelong_whole operands⟩
  | expand scope form => exact form.belongs_whole

/-- Every result belongs to the whole store. -/
theorem outcome_whole
    (result : Except Unwind Value) :
    Outcome .whole (Value.Belongs .whole) size result := by
  cases result with
  | ok value => exact value.belongs_whole
  | error reason => exact reason.belongs_whole

/-- The whole store holds in every store. -/
theorem Store.holds_whole
    (store : Store) :
    store.Holds .whole size where
  apart := nofun
  apartVectors := nofun
  pairs _ _ := ⟨Value.belongs_whole _, Value.belongs_whole _⟩
  vectors _ _ := allBelong_whole _
  marked inner _ := inner.belongs_whole
  programs forms _ := allBelong_whole forms
  frames _ _ binding _ := binding.2.belongs_whole
  procedures procedure _ := allBelong_whole procedure.body
  transformers _ _ rule _ := ⟨rule.pattern.belongs_whole, rule.template.belongs_whole⟩
  parameters parameter _ :=
      ⟨parameter.value.belongs_whole, fun converter _ => converter.belongs_whole⟩
  conditions condition _ := allBelong_whole condition.irritants
  foreigns object _ := object.content.belongs_whole
  binds := nofun

/-- Every machine is within the whole store. -/
theorem Machine.within_whole
    (machine : Machine) :
    machine.Within .whole :=
  ⟨machine.store.holds_whole, allBelong_whole machine.context.handlers⟩

end Whole

/-! How far rebinding comes. -/

section Coming

variable
  {size : Sizes}
  {scope : Scope}
  {forms : List Value}
  {machine arrived : Machine}
  {previous : List (Nat × Value)}
  {body : Script Value}

/-- What watched forms have come to, before parameters get their old values back. -/
theorem Progress.advance_restoring
    (body : Script Value)
    (previous : List (Nat × Value))
    (machine : Machine) :
    (body.attempt.bind (Special.restore previous)).advance machine =
      match body.advance machine with
      | .ended result last =>
          .ended (result.map .value)
            { last with store := (Special.exchange [] last.store previous).2 }
      | .asked request next last =>
          .asked request (fun result => (next result).attempt.bind (Special.restore previous))
              last := by
  induction body generalizing machine with
  | done answer => exact Settles.advance_restore previous (.ok answer) machine
  | unwind reason => exact Settles.advance_restore previous (.error reason) machine
  | viewing look next inductionHypothesis => exact inductionHypothesis _ machine
  | acting action next inductionHypothesis => exact inductionHypothesis _ _
  | switching change next inductionHypothesis => exact inductionHypothesis _ _
  | asking request next => rfl
  | deferring step next inductionHypothesis => exact inductionHypothesis (.ok step) machine

/-- What the first action of a script makes of a store. -/
private def firstStore : Script Step → Store → Store
  | .acting action _, store => (action store).2
  | _, store => store

/-- A body under rebindings begins when the values have been exchanged. -/
private theorem firstStore_whileRebound :
    firstStore (Special.whileRebound scope rebound forms) store =
      (Special.exchange [] store rebound).2 :=
  rfl

/-- To exchange the values of parameters touches no frame. -/
private theorem frames_exchange :
    (Special.exchange sofar store rebound).2.frames = store.frames := by
  induction rebound generalizing sofar store with
  | nil => rfl
  | cons entry rest inductionHypothesis => exact inductionHypothesis

/-- A script that has come to a request waits for its answer. -/
private theorem comesTo_asking
    {last : Script Step}
    {request : Request}
    {next : Except Unwind Value → Script Step}
    (comes : ComesTo last arrived (.asking request next) machine) :
    last = .asking request next := by
  cases comes
  rfl

/-- Before forms have been watched to their end, no other parameters are about to be rebound. -/
private theorem not_comesTo_bodyValue
    {inner : Scope}
    {others : List Value} :
    ¬ComesTo (Special.whileRebound scope rebound forms) arrived
      ((Special.bodyValue inner others).attempt.bind (Special.restore previous)) machine := by
  intro comes
  have deferred
      {step : Step}
      (comes :
        ComesTo (Special.whileRebound scope rebound forms) arrived
          (((defer step).bind finish).attempt.bind (Special.restore previous)) machine) :
      False := by
    generalize shape : Special.whileRebound scope rebound forms = last at comes
    cases comes with
    | here => cases shape
    | deferring comes =>
        have asks := comesTo_asking comes
        rw [← shape] at asks
        cases asks
  cases others with
  | nil => cases comesTo_asking comes
  | cons form rest =>
      cases rest with
      | cons second others => cases comesTo_asking comes
      | nil =>
          cases form with
          | pair address => exact deferred comes
          | program address => exact deferred comes
          | _ => cases comesTo_asking comes

/-- One that is about to rebind parameters is about to rebind no others first. -/
private theorem comesTo_whileRebound
    {otherScope : Scope}
    {others : List (Nat × Value)}
    {otherForms : List Value}
    (comes :
      ComesTo (Special.whileRebound scope rebound forms) arrived
        (Special.whileRebound otherScope others otherForms) machine) :
    arrived = machine := by
  generalize shape : Special.whileRebound scope rebound forms = last at comes
  cases comes with
  | here => rfl
  | acting comes =>
      -- What comes next adds a frame, which rebinding does not.
      cases comes with
      | here =>
          have same :
              (firstStore (Special.whileRebound scope rebound forms) default).frames =
                (Store.newChild otherScope default).2.frames :=
            congrArg (fun script => (firstStore script default).frames) shape
          rw [firstStore_whileRebound, frames_exchange] at same
          have added := congrArg Array.size same
          simp [Store.newChild, Store.newFrame] at added
      | acting comes =>
          subst shape
          exact (not_comesTo_bodyValue comes).elim

/-- After parameters have got their old values back, none is about to be rebound. -/
private theorem comesTo_restore
    {result : Except Unwind Value}
    (comes :
      ComesTo (Special.whileRebound scope rebound forms) arrived
        (Special.restore previous result) machine) :
    arrived = machine := by
  generalize shape : Special.whileRebound scope rebound forms = last at comes
  cases comes with
  | here => rfl
  | acting comes =>
      cases result with
      | ok value =>
          cases comes
          cases shape
      | error reason =>
          cases comes
          cases shape

/-- Parameters are about to be exchanged. -/
inductive Special.Exchanges : Script Step → Prop
  | rebinding (scope : Scope) (rebound : List (Nat × Value)) (forms : List Value) :
      Exchanges (whileRebound scope rebound forms)
  | restoring (previous : List (Nat × Value)) (result : Except Unwind Value) :
      Exchanges (restore previous result)

/-- A script whose requests only rebind exchanges at each of them. -/
theorem Special.Exchanges.of_rebinds
    {script : Script Step}
    (stays : Script.Stays .whole (Special.Rebinds .whole) (Step.Belongs .whole) size script) :
    Script.Stays .whole (fun _ => Special.Exchanges) (Step.Belongs .whole) size script := by
  refine stays.mono fun _ _ _ isEnd => ?_
  cases isEnd with
  | rebinding _ _ => exact .arriving (.rebinding _ _ _)

/-- The restoring after a body is an exchange too, whatever the body came to. -/
theorem Special.Exchanges.of_restoring
    (stays : Script.Within .whole (Value.Belongs .whole) size body) :
    Script.Stays .whole (fun _ => Special.Exchanges) (Step.Belongs .whole) size
      (body.attempt.bind (Special.restore previous)) :=
  stays.attempt.bind fun _ _ _ _ => .arriving (.restoring _ _)

/-- Up to where parameters are rebound nothing has happened to them. -/
theorem Special.Exchanges.follows
    {script : Script Step}
    (stays : Script.Stays .whole (fun _ => Special.Exchanges) (Step.Belongs .whole) size script)
    (grown : size ≤ machine.store.sizes)
    (comes : ComesTo (Special.whileRebound scope rebound forms) arrived script machine) :
    machine.store.Follows .whole arrived.store := by
  have same := machine.within_whole.same
  induction stays generalizing machine with
  | arriving isEnd =>
      cases isEnd with
      | rebinding => exact comesTo_whileRebound comes ▸ same
      | restoring => exact comesTo_restore comes ▸ same
  | done _ =>
      generalize Special.whileRebound scope rebound forms = last at comes
      cases comes with
      | here => exact same
  | unwind _ =>
      generalize Special.whileRebound scope rebound forms = last at comes
      cases comes with
      | here => exact same
  | viewing _ inductionHypothesis =>
      generalize Special.whileRebound scope rebound forms = last at comes inductionHypothesis
      cases comes with
      | here => exact same
      | viewing comes =>
          exact inductionHypothesis machine.store ⟨grown, machine.store.holds_whole⟩ (le_refl _)
            comes same
  | acting keeps _ inductionHypothesis =>
      have follows := keeps machine.store ⟨grown, machine.store.holds_whole⟩
      generalize Special.whileRebound scope rebound forms = last at comes inductionHypothesis
      cases comes with
      | here => exact same
      | acting comes =>
          exact follows.trans (inductionHypothesis machine.store ⟨grown, machine.store.holds_whole⟩
            (le_refl _) comes (Machine.within_whole _).same)
  | @switching _ _ change _ _ _ inductionHypothesis =>
      generalize Special.whileRebound scope rebound forms = last at comes inductionHypothesis
      cases comes with
      | here => exact same
      | switching comes =>
          exact @inductionHypothesis _ machine.context grown (allBelong_whole _)
            { machine with context := (change machine.context).2 } (le_refl _) comes
            (Machine.within_whole _).same
  | asking _ _ _ =>
      generalize Special.whileRebound scope rebound forms = last at comes
      cases comes with
      | here => exact same
  | deferring _ _ inductionHypothesis =>
      generalize Special.whileRebound scope rebound forms = last at comes inductionHypothesis
      cases comes with
      | here => exact same
      | deferring comes => exact inductionHypothesis grown comes same

end Coming

end SmallScheme
