import SmallScheme.Proofs.Moment.Life
import SmallScheme.Proofs.Moment.Rebinding
import SmallScheme.Proofs.Script.Sequence

namespace SmallScheme

/-!
# Dynamic rebinding is strictly scoped

A parameter has the value of the innermost running rebinding of it, and a run gives back the value
that it has begun with, whichever way it ends.  The values are collected before anything is rebound:
each of them is the value of a form, converted if the parameter has a converter.
-/

open Script

namespace Special

/-- The requests of an entry are served with a parameter and a value, which is converted. -/
inductive Describes
    (serve : Request → Run Value)
    (scope : Scope)
    (before : Machine)
    (entry : Value) : Nat × Value → Machine → Prop
  | plain
      {parameterForm valueForm value : Value}
      {address : Nat}
      {middle after : Machine} :
      before.store.listItems? entry = some [parameterForm, valueForm] →
      serve (.evaluate scope parameterForm) before = some (.ok (.parameter address), middle) →
      serve (.evaluate scope valueForm) middle = some (.ok value, after) →
      after.store.parameters[address]?.bind Parameter.converter = none →
      Describes serve scope before entry (address, value) after
  | converted
      {parameterForm valueForm given converter value : Value}
      {address : Nat}
      {middle last after : Machine} :
      before.store.listItems? entry = some [parameterForm, valueForm] →
      serve (.evaluate scope parameterForm) before = some (.ok (.parameter address), middle) →
      serve (.evaluate scope valueForm) middle = some (.ok given, last) →
      last.store.parameters[address]?.bind Parameter.converter = some converter →
      serve (.call converter [given]) last = some (.ok value, after) →
      Describes serve scope before entry (address, value) after

/-- The entries describe parameters and values, one after the other. -/
inductive Collects
    (serve : Request → Run Value)
    (scope : Scope) : Machine → List Value → List (Nat × Value) → Machine → Prop
  | nil (machine : Machine) :
      Collects serve scope machine [] [] machine
  | cons
      {before middle after : Machine}
      {entry : Value}
      {rest : List Value}
      {rebound : Nat × Value}
      {others : List (Nat × Value)} :
      Describes serve scope before entry rebound middle →
      Collects serve scope middle rest others after →
      Collects serve scope before (entry :: rest) (rebound :: others) after

variable
  {serve : Request → Run Value}
  {handOver : Step → Run Step}
  {scope : Scope}
  {before after : Machine}

private theorem items_of_run
    {list : Value}
    {items : List Value}
    (ran :
      (perform (Store.listItems list)).run serve handOver before = some (.ok items, after)) :
    before.store.listItems? list = some items ∧ after = before := by
  obtain ⟨store, context, depth⟩ := before
  cases listed : store.listItems? list with
  | none =>
      have refused : ∃ fault, Store.listItems list store = (.error fault, store) := by
        unfold Store.listItems
        rw [StoreM.view_bind, listed]
        exact ⟨_, rfl⟩
      obtain ⟨fault, refused⟩ := refused
      simp only [Script.perform, Script.run, refused] at ran
      exact (run_report_ne_ok ran).elim
  | some found =>
      have answered : Store.listItems list store = (.ok found, store) := by
        unfold Store.listItems
        rw [StoreM.view_bind, listed]
        rfl
      simp only [Script.perform, Script.run, answered] at ran
      cases ran
      exact ⟨rfl, rfl⟩

/-- What follows a request goes on with the value that it has been served with. -/
private theorem served_of_run
    {Answer : Type}
    {request : Request}
    {next : Value → Script Answer}
    {answer : Answer}
    (ran :
      ((Script.asking request ofResult).bind next).run serve handOver before =
        some (.ok answer, after)) :
    ∃ value middle,
      serve request before = some (.ok value, middle) ∧
        (next value).run serve handOver middle = some (.ok answer, after) := by
  simp only [Script.bind, Script.run] at ran
  cases served : serve request before with
  | none => simp [served] at ran
  | some outcome =>
      obtain ⟨result, middle⟩ := outcome
      rw [served] at ran
      cases result with
      | ok value => exact ⟨value, middle, rfl, ran⟩
      | error reason => cases ran

theorem viewed_of_run
    {Seen Answer : Type}
    {look : Store → Seen}
    {next : Seen → Script Answer}
    {answer : Answer}
    (ran : (view look >>= next).run serve handOver before = some (.ok answer, after)) :
    (next (look before.store)).run serve handOver before = some (.ok answer, after) :=
  ran

theorem describes_of_run
    {entry : Value}
    {rebound : Nat × Value}
    (ran : (rebindingOf scope entry).run serve handOver before = some (.ok rebound, after)) :
    Describes serve scope before entry rebound after := by
  rcases run_bind_cases ran with ⟨parts, start, listed, rest⟩ | ⟨_, _, impossible⟩
  · clear ran
    obtain ⟨isEntry, rfl⟩ := items_of_run listed
    split at rest
    case h_1 parameterForm valueForm =>
      obtain ⟨parameter, middle, parameterServed, rest⟩ := served_of_run rest
      split at rest
      case h_1 address =>
        obtain ⟨given, last, valueServed, rest⟩ := served_of_run rest
        have looked := viewed_of_run rest
        cases found : last.store.parameters[address]?.bind Parameter.converter with
        | none =>
            rw [found] at looked
            cases looked
            exact .plain isEntry parameterServed valueServed found
        | some converter =>
            rw [found] at looked
            obtain ⟨value, ending, converted, rest⟩ := served_of_run looked
            cases rest
            exact .converted isEntry parameterServed valueServed found converted
      case h_2 => exact (run_failTelling_ne_ok rest).elim
    case h_2 => exact (run_failTelling_ne_ok rest).elim
  · cases impossible

theorem collects_of_run
    {sofar rebound : List (Nat × Value)}
    {entries : List Value}
    (ran :
      (rebindingsFrom scope sofar entries).run serve handOver before = some (.ok rebound, after)) :
    ∃ later, rebound = sofar.reverse ++ later ∧
        Collects serve scope before entries later after := by
  induction entries generalizing sofar before with
  | nil =>
      cases ran
      exact ⟨[], (List.append_nil _).symm, .nil _⟩
  | cons entry rest inductionHypothesis =>
      rcases run_bind_cases ran with ⟨first, middle, described, ran⟩ | ⟨_, _, impossible⟩
      · obtain ⟨later, rfl, collects⟩ := inductionHypothesis ran
        refine ⟨first :: later, ?_, .cons (describes_of_run described) collects⟩
        rw [List.reverse_cons, List.append_assoc]
        rfl
      · cases impossible

/-- The parameters that the entries of a list name, with the values they name. -/
def collecting (scope : Scope) (bindings : Value) : Script (List (Nat × Value)) := do
  let entries ← perform (Store.listItems bindings)
  rebindingsFrom scope [] entries

/-- All that is rebound is collected first. -/
theorem rebinding_eq_collecting
    (scope : Scope)
    (bindings : Value)
    (forms : List Value) :
    rebinding scope (bindings :: forms) =
      (collecting scope bindings).bind fun rebound => whileRebound scope rebound forms :=
  (bind_assoc _ _ _).symm

theorem collects_of_run_collecting
    {bindings : Value}
    {rebound : List (Nat × Value)}
    (ran : (collecting scope bindings).run serve handOver before = some (.ok rebound, after)) :
    ∃ entries,
      before.store.listItems? bindings = some entries ∧
        Collects serve scope before entries rebound after := by
  rcases run_bind_cases ran with ⟨entries, start, listed, rest⟩ | ⟨_, _, impossible⟩
  · obtain ⟨areEntries, rfl⟩ := items_of_run listed
    obtain ⟨later, rfl, collects⟩ := collects_of_run rest
    exact ⟨entries, areEntries, collects⟩
  · cases impossible

theorem within_collecting
    {size : Sizes}
    {bindings : Value} :
    Within .whole (ReboundBelong .whole) size (collecting scope bindings) :=
  (within_perform (Store.stays_listItems bindings.belongs_whole)).bind fun _ _ _ belong =>
    within_rebindingsFrom .nil belong

end Special

variable
  {host : Host}
  {limit fuel : Nat}
  {moment : Moment}
  {outside : List Pending}

namespace Moment

/-- What follows a script that is run comes to be carried out at a later moment. -/
theorem reaches_of_run_bind
    {First : Type}
    {script : Script First}
    {next : First → Script Step}
    {carried : Script Step}
    {machine middle : Machine}
    {answer : First}
    (ran : script.run (Machine.serve host limit fuel) Run.done machine = some (.ok answer, middle))
    (carries : moment.carries? host = some (carried, outside))
    (comes : ComesTo (script.bind next) machine carried moment.machine) :
    ∃ later last,
      Reaches host limit moment later ∧
        later.carries? host = some (last, outside) ∧
          ComesTo (next answer) middle last later.machine := by
  induction script generalizing machine moment carried with
  | done found =>
      cases ran
      exact ⟨moment, carried, .refl _, carries, comes⟩
  | unwind reason => cases ran
  | viewing look continuation inductionHypothesis =>
      exact inductionHypothesis _ ran carries (comes.trans (.viewing .here))
  | acting action continuation inductionHypothesis =>
      exact inductionHypothesis _ ran carries (comes.trans (.acting .here))
  | switching change continuation inductionHypothesis =>
      exact inductionHypothesis _ ran carries (comes.trans (.switching .here))
  | deferring step continuation inductionHypothesis =>
      exact inductionHypothesis (.ok step) ran carries (comes.trans (.deferring .here))
  | asking request continuation inductionHypothesis =>
      simp only [Script.run] at ran
      cases served : Machine.serve host limit fuel request machine with
      | none => simp [served] at ran
      | some outcome =>
          obtain ⟨result, between⟩ := outcome
          rw [served] at ran
          have asks :
              moment.next? host limit =
                some (ofProgress outside (carried.advance moment.machine)) :=
            next?_of_carries? carries
          rw [comes.advance] at asks
          let back : Moment :=
            ⟨.returning result,
              .construct request (fun result => (continuation result).bind next) :: outside,
              between⟩
          have carriesBack : back.carries? host = some ((continuation result).bind next, outside) :=
            rfl
          have toBack : Reaches host limit moment back :=
            Reaches.head asks (Machine.reaches_of_serve served _)
          obtain ⟨later, last, reaches, rest⟩ := inductionHypothesis result ran carriesBack .here
          exact ⟨later, last, toBack.trans reaches, rest⟩

end Moment

/-- A run leaves what is left alone by all that serves its requests. -/
theorem Script.Within.run_keeps
    {Answer : Type}
    {fine : Sizes → Answer → Prop}
    {serve : Request → Run Value}
    {script : Script Answer}
    {size : Sizes}
    {address : Nat}
    {parameter : Parameter}
    {before after : Machine}
    {outcome : Except Unwind Answer}
    (stays : Script.Within .whole fine size script)
    (keeps :
      ∀ request before result after,
        serve request before = some (result, after) →
        before.store.parameters[address]? = some parameter →
        before.store.sizes ≤ after.store.sizes ∧
          after.store.parameters[address]? = some parameter)
    (ran : script.run serve Run.done before = some (outcome, after))
    (grown : size ≤ before.store.sizes)
    (found : before.store.parameters[address]? = some parameter) :
    after.store.parameters[address]? = some parameter := by
  induction stays generalizing before with
  | arriving impossible => exact impossible.elim
  | done _ =>
      cases ran
      exact found
  | unwind _ =>
      cases ran
      exact found
  | viewing _ inductionHypothesis =>
      exact inductionHypothesis before.store ⟨grown, before.store.holds_whole⟩ ran (le_refl _)
        found
  | acting steady _ inductionHypothesis =>
      obtain ⟨store, context, depth⟩ := before
      have follows := steady store ⟨grown, store.holds_whole⟩
      exact inductionHypothesis store ⟨grown, store.holds_whole⟩ ran (le_refl _)
        (follows.steady trivial found)
  | switching _ _ inductionHypothesis =>
      obtain ⟨store, context, depth⟩ := before
      exact inductionHypothesis _ context grown (allBelong_whole _) ran (le_refl _) found
  | @asking _ request next _ _ inductionHypothesis =>
      simp only [Script.run] at ran
      cases served : serve request before with
      | none => simp [served] at ran
      | some outcome =>
          obtain ⟨result, between⟩ := outcome
          rw [served] at ran
          obtain ⟨further, kept⟩ := keeps request before result between served found
          exact inductionHypothesis _ result (le_trans grown further) (outcome_whole result) ran
            (le_refl _) kept
  | deferring _ _ inductionHypothesis => exact inductionHypothesis ran grown found

/-- Serving a request leaves a parameter with the value that it has had. -/
theorem Machine.parameter_of_serve
    (hostStays : host.Stays .whole)
    {request : Request}
    {address : Nat}
    {parameter : Parameter}
    {machine last : Machine}
    {result : Except Unwind Value}
    (served : Machine.serve host limit fuel request machine = some (result, last))
    (found : machine.store.parameters[address]? = some parameter) :
    machine.store.sizes ≤ last.store.sizes ∧
      last.store.parameters[address]? = some parameter := by
  obtain ⟨now, here⟩ := (Machine.reaches_of_serve served []).exists_after?
  refine ⟨(Moment.layers_of_after? hostStays rfl found here).1, ?_⟩
  refine Moment.parameter_of_unbound hostStays rfl found here fun began rebound isRebound => ?_
  obtain ⟨outside, hasRebound⟩ := isRebound
  obtain ⟨moment, thereToo, more⟩ := hasRebound.since now hasRebound.earlier (Nat.le_refl _)
  obtain rfl := Option.some.inj (here.symm.trans thereToo)
  exact (Nat.not_lt_zero _ more).elim

namespace Moment

/-- Of the running rebindings that name the parameter, the last one has given it the value. -/
def IsInnermost
    (host : Host)
    (limit : Nat)
    (start : Moment)
    (now address : Nat)
    (value : Value) : Prop :=
  ∃ began rebound,
    start.IsRebound host limit rebound began now ∧
      Special.newValue? rebound address = some value ∧
        ∀ later others,
          began < later →
          start.IsRebound host limit others later now →
          Special.newValue? others address = none

/-- No running rebinding names the parameter. -/
def IsUnbound (host : Host) (limit : Nat) (start : Moment) (now address : Nat) : Prop :=
  ∀ began rebound,
    start.IsRebound host limit rebound began now →
    Special.newValue? rebound address = none

/-- A form is carried out that is to rebind what a list of entries describes. -/
def Parameterizes
    (host : Host)
    (scope : Scope)
    (bindings : Value)
    (forms : List Value)
    (arrived : Machine)
    (outside : List Pending)
    (moment : Moment) : Prop :=
  ∃ carried,
    moment.carries? host = some (carried, outside) ∧
      ComesTo (Special.rebinding scope (bindings :: forms)) arrived carried moment.machine

end Moment

/--
A run leaves every parameter that existed when it began with the value that it had, whichever way
the run ends.  At every moment of the run the parameter has the value that it was given by the
innermost rebinding of it that is running, or, if none is, the value from the beginning.  What a
form rebinds it has collected before: the values of forms, converted where there are converters,
and it rebinds just these.  Where this fails, the form fails with it and has rebound nothing.
-/
theorem rebinding_is_strictly_scoped
    (hostStays : host.Stays .whole)
    (request : Request)
    (machine : Machine) :
    (∀ (address : Nat) (parameter : Parameter),
      machine.store.parameters[address]? = some parameter →
      (∀ fuel result last,
        Machine.serve host limit fuel request machine = some (result, last) →
        last.store.parameters[address]? = some parameter) ∧
      ∀ now moment,
        Moment.after? host limit now ⟨.serving request, [], machine⟩ = some moment →
        (∀ value,
          Moment.IsInnermost host limit ⟨.serving request, [], machine⟩ now address value →
          moment.machine.store.parameters[address]? = some { parameter with value := value }) ∧
        (Moment.IsUnbound host limit ⟨.serving request, [], machine⟩ now address →
          moment.machine.store.parameters[address]? = some parameter)) ∧
    ∀ (moment : Moment) outside scope bindings forms arrived fuel outcome between,
      moment.Parameterizes host scope bindings forms arrived outside →
      (Special.collecting scope bindings).run (Machine.serve host limit fuel) Run.done arrived =
        some (outcome, between) →
      match outcome with
      | .ok rebound =>
          (∃ entries,
            arrived.store.listItems? bindings = some entries ∧
              Special.Collects (Machine.serve host limit fuel) scope arrived entries rebound
                between) ∧
            ∃ later, Moment.Reaches host limit moment later ∧ later.Rebinds host rebound outside
      | .error reason =>
          (Special.rebinding scope (bindings :: forms)).run (Machine.serve host limit fuel) Run.done
              arrived =
            some (.error reason, between) ∧
          ∀ (address : Nat) (parameter : Parameter),
            arrived.store.parameters[address]? = some parameter →
            between.store.parameters[address]? = some parameter := by
  refine ⟨fun address parameter found => ⟨fun fuel result last served => ?_, ?_⟩, ?_⟩
  · exact (Machine.parameter_of_serve hostStays served found).2
  · intro now moment here
    refine ⟨?_, Moment.parameter_of_unbound hostStays rfl found here⟩
    rintro value ⟨began, rebound, isRebound, bound, innermost⟩
    exact Moment.parameter_of_bound hostStays rfl found here isRebound bound innermost
  · intro moment outside scope bindings forms arrived fuel outcome between parameterizes ran
    obtain ⟨carried, carries, comes⟩ := parameterizes
    rw [Special.rebinding_eq_collecting] at comes ⊢
    cases outcome with
    | ok rebound =>
        obtain ⟨later, last, reaches, carriesLater, comesLater⟩ :=
          Moment.reaches_of_run_bind ran carries comes
        exact ⟨Special.collects_of_run_collecting ran, later, reaches,
          last, scope, forms, between, carriesLater, comesLater⟩
    | error reason =>
        refine ⟨Script.run_bind_error ran _, fun address parameter found => ?_⟩
        refine Script.Within.run_keeps Special.within_collecting ?_ ran (le_refl _) found
        exact fun _ _ _ _ => Machine.parameter_of_serve hostStays

/-- The moment at which a program is about to be evaluated where there are parameters. -/
def Moment.beginningWith
    (parameters : Array Parameter)
    (bindings : List (String × Value))
    (source : String) : Moment :=
  let begun := Moment.beginning bindings source
  { begun with machine.store := { begun.machine.store with parameters := parameters } }

theorem Moment.beginningWith_eq
    (parameters : Array Parameter)
    (bindings : List (String × Value))
    (source : String) :
    ∃ request machine,
      machine.store.parameters = parameters ∧
        beginningWith parameters bindings source = ⟨.serving request, [], machine⟩ :=
  ⟨_, _, rfl, rfl⟩

/-- A form that rebinds a parameter twice, whose value has been one. -/
def twiceRebound : Moment :=
  .beginningWith #[⟨.integer 1, none⟩]
    [("parameterize", .special .rebinding), ("p", .parameter 0)]
    "(parameterize ((p 2) (p 3)) (p))"

/-- The value is the integer. -/
def Value.isInteger (number : Int64) : Value → Bool
  | .integer value => value == number
  | _ => false

theorem Value.eq_of_isInteger
    {number : Int64}
    {value : Value}
    (isInteger : value.isInteger number) :
    value = .integer number := by
  cases value with
  | integer found => rw [beq_iff_eq.mp isInteger]
  | _ => cases isInteger

/-- The last binding is seen inside, and the value from before is there afterwards. -/
theorem twice_rebound_parameter_is_given_back :
    ∃ request machine last,
      twiceRebound = ⟨.serving request, [], machine⟩ ∧
        Machine.serve Host.absent 8 40 request machine = some (.ok (.integer 3), last) ∧
        last.store.parameters[0]? = some ⟨.integer 1, none⟩ ∧
        ∃ now moment held,
          Moment.after? Host.absent 8 now ⟨.serving request, [], machine⟩ = some moment ∧
            moment.machine.store.parameters[0]? = some held ∧
            held.value = .integer 3 ∧
            ¬Moment.IsUnbound Host.absent 8 ⟨.serving request, [], machine⟩ now 0 := by
  have answers :
      twiceRebound.activity.request?.any fun request =>
        (Machine.serve Host.absent 8 40 request twiceRebound.machine).any fun outcome =>
          outcome.1.toOption.any fun value => value.isInteger 3 := by
    decide +kernel
  have rebinds :
      (twiceRebound.after? Host.absent 8 24).any fun moment =>
        moment.machine.store.parameters[0]?.any fun held => held.value.isInteger 3 := by
    decide +kernel
  obtain ⟨request, machine, parameters, begins⟩ :
      ∃ request machine,
        machine.store.parameters = #[⟨.integer 1, none⟩] ∧
          twiceRebound = ⟨.serving request, [], machine⟩ :=
    Moment.beginningWith_eq _ _ _
  rw [begins] at answers rebinds
  simp only [Activity.request?, Option.any_some] at answers
  have found : machine.store.parameters[0]? = some ⟨.integer 1, none⟩ := by
    rw [parameters]
    rfl
  obtain ⟨afterwards, meanwhile⟩ :=
    (rebinding_is_strictly_scoped (Host.absent_stays .whole) request machine).1 0 _ found
  obtain ⟨⟨result, last⟩, served, answers⟩ := (Option.any_eq_true _ _).mp answers
  obtain ⟨moment, here, rebinds⟩ := (Option.any_eq_true _ _).mp rebinds
  obtain ⟨held, foundHeld, isThree⟩ := (Option.any_eq_true _ _).mp rebinds
  have holdsThree := Value.eq_of_isInteger isThree
  refine ⟨request, machine, last, begins, ?_, ?_, 24, moment, held, here, foundHeld, holdsThree, ?_⟩
  · cases result with
    | ok value => rw [served, Value.eq_of_isInteger answers]
    | error reason => cases answers
  · exact afterwards 40 result last served
  · intro unbound
    rw [(meanwhile 24 moment here).2 unbound] at foundHeld
    cases foundHeld
    cases holdsThree

end SmallScheme
