import SmallScheme.Proofs.Moment.Basic
import SmallScheme.Proofs.Realm.Construct

namespace SmallScheme

/-!
# Runs within a realm

A moment is within a realm if the machine, what is going on and all that waits belong to it.  Every
moment of a run that begins within a realm is within it, if parameters are not steady and the host
stays within the realm.
-/

variable
  {realm : Realm}
  {size later : Sizes}
  {host : Host}
  {limit : Nat}

/-- What the machine holds belongs to the realm, and so do the handlers. -/
structure Machine.Within (realm : Realm) (machine : Machine) : Prop where
  store : machine.store.Holds realm machine.store.sizes
  context : machine.context.Belongs realm machine.store.sizes

/--
How far a script has come, it has stayed within the realm, and it goes on in this way.  The machine
has come of one with the given store.
-/
def Progress.Stays
    {Answer : Type}
    (realm : Realm)
    (ends : Sizes → Script Answer → Prop)
    (fine : Sizes → Answer → Prop)
    (before : Store) : Progress Answer → Prop
  | .ended result machine =>
      machine.Within realm ∧
        before.Follows realm machine.store ∧
          Outcome realm fine machine.store.sizes result
  | .asked request next machine =>
      machine.Within realm ∧
        before.Follows realm machine.store ∧
          request.Belongs realm machine.store.sizes ∧
            ∀ later result,
              machine.store.sizes ≤ later →
              Outcome realm (Value.Belongs realm) later result →
              Script.Stays realm ends fine later (next result)

/-- Carrying out a script by itself, one comes to another one, with what has become of the
machine. -/
inductive Script.ComesTo
    {Answer : Type}
    (last : Script Answer)
    (arrived : Machine) : Script Answer → Machine → Prop
  | here : ComesTo last arrived last arrived
  | viewing
      {Result : Type}
      {look : Store → Result}
      {next : Result → Script Answer}
      {machine : Machine} :
      ComesTo last arrived (next (look machine.store)) machine →
      ComesTo last arrived (.viewing look next) machine
  | acting
      {Result : Type}
      {action : StoreM Result}
      {next : Except Fault Result → Script Answer}
      {machine : Machine} :
      ComesTo last arrived (next (action machine.store).1)
        { machine with store := (action machine.store).2 } →
      ComesTo last arrived (.acting action next) machine
  | switching
      {Result : Type}
      {change : Context → Result × Context}
      {next : Result → Script Answer}
      {machine : Machine} :
      ComesTo last arrived (next (change machine.context).1)
        { machine with context := (change machine.context).2 } →
      ComesTo last arrived (.switching change next) machine
  | deferring {step : Step} {next : Except Unwind Step → Script Answer} {machine : Machine} :
      ComesTo last arrived (next (.ok step)) machine →
      ComesTo last arrived (.deferring step next) machine

section Advancing

variable
  {Answer : Type}
  {ends : Sizes → Script Answer → Prop}
  {fine : Sizes → Answer → Prop}
  {script last : Script Answer}
  {machine arrived : Machine}
  {before between : Store}

/-- The script goes on from where it has come to. -/
theorem Script.ComesTo.advance
    (comes : ComesTo last arrived script machine) :
    script.advance machine = last.advance arrived := by
  induction comes with
  | here => rfl
  | viewing _ inductionHypothesis => exact inductionHypothesis
  | acting _ inductionHypothesis => exact inductionHypothesis
  | switching _ inductionHypothesis => exact inductionHypothesis
  | deferring _ inductionHypothesis => exact inductionHypothesis

theorem Script.ComesTo.trans
    {between : Script Answer}
    {middle : Machine}
    (first : ComesTo between middle script machine)
    (second : ComesTo last arrived between middle) :
    ComesTo last arrived script machine := by
  induction first with
  | here => exact second
  | viewing _ inductionHypothesis => exact .viewing inductionHypothesis
  | acting _ inductionHypothesis => exact .acting inductionHypothesis
  | switching _ inductionHypothesis => exact .switching inductionHypothesis
  | deferring _ inductionHypothesis => exact .deferring inductionHypothesis

/-- The script comes to an end, with a machine within the realm. -/
def Script.Arrives
    (realm : Realm)
    (ends : Sizes → Script Answer → Prop)
    (script : Script Answer)
    (machine : Machine) : Prop :=
  ∃ (last : Script Answer) (arrived : Machine),
    ComesTo last arrived script machine ∧
      ends arrived.store.sizes last ∧
        arrived.Within realm ∧
          machine.store.Follows realm arrived.store

theorem Progress.Stays.since
    {progress : Progress Answer}
    (stays : progress.Stays realm ends fine between)
    (follows : before.Follows realm between) :
    progress.Stays realm ends fine before := by
  cases progress with
  | ended result machine => exact ⟨stays.1, follows.trans stays.2.1, stays.2.2⟩
  | asked request next machine => exact ⟨stays.1, follows.trans stays.2.1, stays.2.2⟩

theorem Machine.Within.same
    (within : machine.Within realm) :
    machine.store.Follows realm machine.store :=
  ⟨le_refl _, within.store, fun _ => id⟩

/-- A script that stays within the realm comes as far as it can within it, or comes to an end. -/
theorem Script.Stays.advance
    (stays : Script.Stays realm ends fine size script)
    (endsMono :
      ∀ size later script,
        ends size script →
        size ≤ later →
        ends later script)
    (fineMono :
      ∀ size later answer,
        fine size answer →
        size ≤ later →
        fine later answer)
    (within : machine.Within realm)
    (grown : size ≤ machine.store.sizes) :
    (script.advance machine).Stays realm ends fine machine.store ∨
      script.Arrives realm ends machine := by
  induction stays generalizing machine with
  | @arriving _ script arrived =>
      exact .inr ⟨script, machine, .here, endsMono _ _ _ arrived grown, within, within.same⟩
  | done isFine =>
      exact .inl ⟨within, within.same, fineMono _ _ _ isFine grown⟩
  | unwind belongs =>
      exact .inl ⟨within, within.same, belongs.mono grown⟩
  | viewing _ inductionHypothesis =>
      refine (inductionHypothesis machine.store ⟨grown, within.store⟩ within (le_refl _)).imp
        id ?_
      rintro ⟨last, arrived, comes, rest⟩
      exact ⟨last, arrived, .viewing comes, rest⟩
  | acting keeps _ inductionHypothesis =>
      obtain ⟨store, context, depth⟩ := machine
      have follows := keeps store ⟨grown, within.store⟩
      refine (inductionHypothesis store ⟨grown, within.store⟩ ?_ (le_refl _)).imp
        (·.since follows) ?_
      · exact ⟨follows.holds, within.context.mono follows.grown⟩
      · rintro ⟨last, arrived, comes, isEnd, arrivedWithin, further⟩
        exact ⟨last, arrived, .acting comes, isEnd, arrivedWithin, follows.trans further⟩
  | @switching _ _ change next keeps _ inductionHypothesis =>
      obtain ⟨store, context, depth⟩ := machine
      have switched : Machine.Within realm ⟨store, (change context).2, depth⟩ :=
        ⟨within.store, keeps _ context grown within.context⟩
      refine (inductionHypothesis _ context grown within.context switched
        (le_refl _)).imp id ?_
      rintro ⟨last, arrived, comes, rest⟩
      exact ⟨last, arrived, .switching comes, rest⟩
  | asking belongs continues _ =>
      refine .inl ⟨within, within.same, belongs.mono grown, fun later result more => ?_⟩
      exact continues later result (le_trans grown more)
  | deferring _ _ inductionHypothesis =>
      refine (inductionHypothesis within grown).imp id ?_
      rintro ⟨last, arrived, comes, rest⟩
      exact ⟨last, arrived, .deferring comes, rest⟩

/-- A script without ends comes as far as it can within the realm. -/
theorem Script.Within.advance
    (stays : Script.Within realm fine size script)
    (fineMono :
      ∀ size later answer,
        fine size answer →
        size ≤ later →
        fine later answer)
    (within : machine.Within realm)
    (grown : size ≤ machine.store.sizes) :
    (script.advance machine).Stays realm (fun _ _ => False) fine machine.store := by
  rcases Script.Stays.advance stays
    (fun _ _ _ impossible _ => impossible) fineMono within grown with
    stays | arrives
  · exact stays
  · obtain ⟨_, _, _, impossible, _⟩ := arrives
    exact impossible.elim

end Advancing

/-! Moments. -/

def Activity.Belongs (realm : Realm) (size : Sizes) : Activity → Prop
  | .serving request => request.Belongs realm size
  | .returning result => Outcome realm (Value.Belongs realm) size result

/-- What waits goes on within the realm. -/
def Pending.Stays (realm : Realm) (size : Sizes) : Pending → Prop
  | .level => True
  | .construct _ next =>
      ∀ later result,
        size ≤ later →
        Outcome realm (Value.Belongs realm) later result →
        Script.Within realm (Step.Belongs realm) later (next result)

theorem Pending.Stays.mono
    {waiting : Pending}
    (stays : waiting.Stays realm size)
    (grown : size ≤ later) :
    waiting.Stays realm later := by
  cases waiting with
  | level => trivial
  | construct request next =>
      exact fun last result more => stays last result (le_trans grown more)

namespace Moment

/-- The machine, what is going on and all that waits belong to the realm. -/
structure Within (realm : Realm) (moment : Moment) : Prop where
  machine : moment.machine.Within realm
  activity : moment.activity.Belongs realm moment.machine.store.sizes
  pending : ∀ waiting ∈ moment.pending, waiting.Stays realm moment.machine.store.sizes

variable {moment following : Moment}

private theorem Within.ofProgress
    {before : Store}
    {progress : Progress Step}
    (stays : progress.Stays realm (fun _ _ => False) (Step.Belongs realm) before)
    {pending : List Pending}
    (waits : ∀ waiting ∈ pending, waiting.Stays realm before.sizes) :
    (ofProgress pending progress).Within realm ∧
      before.Follows realm (Moment.ofProgress pending progress).machine.store := by
  have later {store : Store} (follows : before.Follows realm store) :
      ∀ waiting ∈ pending, waiting.Stays realm store.sizes :=
    fun one member => (waits one member).mono follows.grown
  match progress, stays with
  | .ended (.ok step) machine, ⟨within, follows, outcome⟩ =>
      exact ⟨⟨within, outcome, later follows⟩, follows⟩
  | .ended (.error reason) machine, ⟨within, follows, outcome⟩ =>
      exact ⟨⟨within, outcome, later follows⟩, follows⟩
  | .asked request next machine, ⟨within, follows, belongs, goesOn⟩ =>
      exact ⟨⟨within, belongs, List.forall_mem_cons.mpr ⟨goesOn, later follows⟩⟩, follows⟩

private theorem Within.ofOpening
    (limit : Nat)
    {step : Step}
    {machine : Machine}
    (within : machine.Within realm)
    (belongs : step.Belongs realm machine.store.sizes)
    {pending : List Pending}
    (waits : ∀ waiting ∈ pending, waiting.Stays realm machine.store.sizes) :
    (ofOpening limit step pending machine).Within realm ∧
      machine.store.Follows realm (Moment.ofOpening limit step pending machine).machine.store := by
  unfold Moment.ofOpening
  split
  · exact ⟨⟨within, trivial, waits⟩, within.same⟩
  · exact ⟨⟨⟨within.store, within.context⟩, belongs,
      List.forall_mem_cons.mpr ⟨trivial, waits⟩⟩, within.same⟩

/-- The next moment is within the realm as well. -/
theorem Within.next
    (hostStays : host.Stays realm)
    (free : ¬realm.steady)
    (within : moment.Within realm)
    (next : moment.next? host limit = some following) :
    following.Within realm ∧ moment.machine.store.Follows realm following.machine.store := by
  obtain ⟨machineWithin, activity, waits⟩ := within
  have same := machineWithin.same
  cases steps_of_next? next with
  | @evaluating scope form _ _ =>
      have belongs : Step.Belongs realm _ (.tail scope form) := activity
      exact Within.ofOpening limit machineWithin belongs waits
  | @calling callee operands _ _ =>
      have belongs : Step.Belongs realm _ (.apply callee operands) := activity
      exact Within.ofOpening limit machineWithin belongs waits
  | @finishing step value _ _ amounts =>
      cases step with
      | value result =>
          cases amounts
          exact ⟨⟨machineWithin, activity, waits⟩, same⟩
      | tail scope form => cases amounts
      | apply callee operands => cases amounts
      | expand scope form => cases amounts
  | beginning amounts =>
      have stays := Machine.within_stepScript hostStays free activity amounts
      exact Within.ofProgress
        (Script.Within.advance stays (fun _ _ _ => Step.Belongs.mono) machineWithin (le_refl _))
            waits
  | reaching | waiting =>
      exact ⟨⟨machineWithin, trivial, waits⟩, same⟩
  | closing =>
      obtain ⟨_, others⟩ := List.forall_mem_cons.mp waits
      exact ⟨⟨⟨machineWithin.store, machineWithin.context⟩, activity, others⟩, same⟩
  | resuming =>
      obtain ⟨goesOn, others⟩ := List.forall_mem_cons.mp waits
      have stays := goesOn _ _ (le_refl _) activity
      exact Within.ofProgress
        (Script.Within.advance stays (fun _ _ _ => Step.Belongs.mono) machineWithin (le_refl _))
            others

/-- All moments of a run are within the realm, if its beginning is. -/
theorem Reaches.within
    (hostStays : host.Stays realm)
    (free : ¬realm.steady)
    (reaches : Reaches host limit moment following)
    (within : moment.Within realm) :
    following.Within realm ∧ moment.machine.store.Follows realm following.machine.store := by
  induction reaches with
  | refl => exact ⟨within, within.machine.same⟩
  | tail _ next inductionHypothesis =>
      obtain ⟨withinBetween, follows⟩ := inductionHypothesis
      obtain ⟨withinLater, further⟩ := withinBetween.next hostStays free next
      exact ⟨withinLater, follows.trans further⟩

end Moment

/-! What is served. -/

/-- The outcome is within the realm, and the machine has come of the given store. -/
def Machine.Ends
    {Answer : Type}
    (realm : Realm)
    (fine : Sizes → Answer → Prop)
    (before : Store)
    (result : Except Unwind Answer)
    (last : Machine) : Prop :=
  last.Within realm ∧
    before.Follows realm last.store ∧
      Outcome realm fine last.store.sizes result

/-- A request that belongs to the realm is served within it. -/
theorem Machine.ends_of_serve
    (hostStays : host.Stays realm)
    (free : ¬realm.steady)
    {fuel : Nat}
    {request : Request}
    {machine last : Machine}
    {result : Except Unwind Value}
    (belongs : request.Belongs realm machine.store.sizes)
    (within : machine.Within realm)
    (served : Machine.serve host limit fuel request machine = some (result, last)) :
    Machine.Ends realm (Value.Belongs realm) machine.store result last := by
  have begins : Moment.Within realm ⟨.serving request, [], machine⟩ :=
    ⟨within, belongs, fun _ member => nomatch member⟩
  obtain ⟨after, follows⟩ :=
    Moment.Reaches.within hostStays free (reaches_of_serve served []) begins
  exact ⟨after.machine, follows, after.activity⟩

end SmallScheme
