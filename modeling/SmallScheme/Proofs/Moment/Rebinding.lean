import SmallScheme.Proofs.Realm.Rebinding

namespace SmallScheme

/-!
# Parameters at the moments of a run

While forms are evaluated for which parameters are rebound, more waits than when the rebinding
began.  So what waits at a moment tells which rebindings are running, and in which order their
values will be given back.  At every moment of a run a parameter has the value that it was given by
the last rebinding of it that is running, and the value from the beginning of the run if there is
none.
-/

open Script

/-- What waits goes on with watched forms and gives parameters their old values back after them. -/
def Pending.Watches
    (previous : List (Nat × Value))
    (size : Sizes)
    (waiting : Pending) : Prop :=
  ∃ (request : Request) (body : Except Unwind Value → Script Value),
    waiting =
        .construct request (fun result => (body result).attempt.bind (Special.restore previous)) ∧
      ∀ later result,
        size ≤ later →
        Script.Within .whole (Value.Belongs .whole) later (body result)

theorem Pending.Watches.mono
    {previous : List (Nat × Value)}
    {size later : Sizes}
    {waiting : Pending}
    (watches : waiting.Watches previous size)
    (grown : size ≤ later) :
    waiting.Watches previous later := by
  obtain ⟨request, body, shape, stays⟩ := watches
  exact ⟨request, body, shape, fun last result more => stays last result (le_trans grown more)⟩

namespace Moment

/-- The script that is carried out at the moment, and all that waits for it. -/
def carries? (host : Host) : Moment → Option (Script Step × List Pending)
  | ⟨.serving (.finish step), outside, _⟩ =>
      match Machine.stepScript host step with
      | .inl _ => none
      | .inr script => some (script, outside)
  | ⟨.returning result, .construct _ next :: outside, _⟩ => some (next result, outside)
  | _ => none

/-- Parameters are rebound at the moment, inside all that waits outside. -/
def Rebinds
    (host : Host)
    (rebound : List (Nat × Value))
    (outside : List Pending)
    (moment : Moment) : Prop :=
  ∃ script scope forms arrived,
    moment.carries? host = some (script, outside) ∧
      ComesTo (Special.whileRebound scope rebound forms) arrived script moment.machine

/-- At one time parameters were rebound, and ever since then more has been waiting than outside. -/
structure HasRebound
    (host : Host)
    (limit : Nat)
    (start : Moment)
    (rebound : List (Nat × Value))
    (outside : List Pending)
    (began now : Nat) : Prop where
  earlier : began < now
  rebinds :
    ∃ moment, start.after? host limit began = some moment ∧ moment.Rebinds host rebound outside
  since :
    ∀ time,
      began < time →
      time ≤ now →
      ∃ moment,
        start.after? host limit time = some moment ∧ outside.length < moment.pending.length

/-- The forms for which parameters were rebound at one time are being evaluated at another. -/
def IsRebound
    (host : Host)
    (limit : Nat)
    (start : Moment)
    (rebound : List (Nat × Value))
    (began now : Nat) : Prop :=
  ∃ outside, start.HasRebound host limit rebound outside began now

variable
  {host : Host}
  {limit began now : Nat}
  {start moment following : Moment}
  {script : Script Step}
  {outside : List Pending}
  {rebound : List (Nat × Value)}

theorem next?_of_carries?
    (carries : moment.carries? host = some (script, outside)) :
    moment.next? host limit = some (ofProgress outside (script.advance moment.machine)) := by
  obtain ⟨activity, pending, machine⟩ := moment
  match activity, pending, carries with
  | .serving (.finish step), pending, carries =>
      cases amounts : Machine.stepScript host step with
      | inl value => simp [carries?, amounts] at carries
      | inr other =>
          simp only [carries?, amounts, Option.some.injEq, Prod.mk.injEq] at carries
          obtain ⟨rfl, rfl⟩ := carries
          exact next?_of_script amounts _ _
  | .returning result, .construct _ next :: rest, carries =>
      simp only [carries?, Option.some.injEq, Prod.mk.injEq] at carries
      obtain ⟨rfl, rfl⟩ := carries
      rfl

theorem after?_succ
    (here : start.after? host limit now = some moment) :
    start.after? host limit (now + 1) = moment.next? host limit := by
  induction now generalizing start with
  | zero =>
      obtain rfl := Option.some.inj here
      unfold after?
      cases start.next? host limit <;> rfl
  | succ now inductionHypothesis =>
      unfold after? at here ⊢
      cases next : start.next? host limit with
      | none => simp [next] at here
      | some second =>
          rw [next] at here
          exact inductionHypothesis here

/-- Whatever a run reaches it reaches in time. -/
theorem Reaches.exists_after?
    (reaches : Reaches host limit start moment) :
    ∃ now, start.after? host limit now = some moment := by
  induction reaches with
  | refl => exact ⟨0, rfl⟩
  | tail _ next inductionHypothesis =>
      obtain ⟨now, here⟩ := inductionHypothesis
      exact ⟨now + 1, (after?_succ here).trans next⟩

theorem HasRebound.next
    (hasRebound : start.HasRebound host limit rebound outside began now)
    (there : start.after? host limit (now + 1) = some following)
    (more : outside.length < following.pending.length) :
    start.HasRebound host limit rebound outside began (now + 1) where
  earlier := Nat.lt_succ_of_lt hasRebound.earlier
  rebinds := hasRebound.rebinds
  since time after before := by
    rcases Nat.lt_or_eq_of_le before with sooner | rfl
    · exact hasRebound.since time after (Nat.le_of_lt_succ sooner)
    · exact ⟨following, there, more⟩

theorem ofProgress_ended_pending
    (outside : List Pending)
    (result : Except Unwind Step)
    (machine : Machine) :
    (ofProgress outside (.ended result machine)).pending = outside := by
  cases result <;> rfl

/--
What waits down to a floor gives the parameter back the value that it has there.  Each rebinding on
the way has begun since the given time and is still running.
-/
inductive Layers
    (host : Host)
    (limit : Nat)
    (start : Moment)
    (address : Nat)
    (floor : Sizes → List Pending → Parameter → Prop)
    (since now : Nat)
    (size : Sizes) : List Pending → Parameter → Prop
  | floor {pending : List Pending} {parameter : Parameter} :
      floor size pending parameter →
      Layers host limit start address floor since now size pending parameter
  | level {rest : List Pending} {parameter : Parameter} :
      Layers host limit start address floor since now size rest parameter →
      Layers host limit start address floor since now size (.level :: rest) parameter
  | ordinary
      {request : Request}
      {next : Except Unwind Value → Script Step}
      {rest : List Pending}
      {parameter : Parameter} :
      (∀ later result,
        size ≤ later →
        Script.Stays .whole (Special.Rebinds .whole) (Step.Belongs .whole) later (next result)) →
      Layers host limit start address floor since now size rest parameter →
      Layers host limit start address floor since now size (.construct request next :: rest)
        parameter
  | rebound
      {waiting : Pending}
      {previous rebound : List (Nat × Value)}
      {rest : List Pending}
      {parameter : Parameter}
      {began : Nat} :
      since ≤ began →
      start.HasRebound host limit rebound rest began now →
      waiting.Watches previous size →
      (∀ store : Store,
        store.parameters[address]? = some (parameter.rebound rebound address) →
        (Special.exchange [] store previous).2.parameters[address]? = some parameter) →
      Layers host limit start address floor since now size rest parameter →
      Layers host limit start address floor since now size (waiting :: rest)
        (parameter.rebound rebound address)

section Layered

variable
  {address since : Nat}
  {size : Sizes}
  {floor : Sizes → List Pending → Parameter → Prop}
  {pending : List Pending}
  {parameter : Parameter}

/-- What is not left behind at the next moment has the same layers. -/
theorem Layers.later
    (layers : Layers host limit start address floor since now size pending parameter)
    (floorMono :
      ∀ size larger pending parameter,
        floor size pending parameter →
        size ≤ larger →
        floor larger pending parameter)
    (there : start.after? host limit (now + 1) = some following)
    (grown : size ≤ following.machine.store.sizes)
    (kept : pending.length ≤ following.pending.length) :
    Layers host limit start address floor since (now + 1) following.machine.store.sizes pending
      parameter := by
  induction layers with
  | floor atFloor => exact .floor (floorMono _ _ _ _ atFloor grown)
  | level _ inductionHypothesis => exact .level (inductionHypothesis (Nat.le_of_succ_le kept))
  | ordinary stays _ inductionHypothesis =>
      exact .ordinary (fun last result more => stays last result (le_trans grown more))
        (inductionHypothesis (Nat.le_of_succ_le kept))
  | rebound recent hasRebound watches restores _ inductionHypothesis =>
      exact .rebound recent (hasRebound.next there kept) (watches.mono grown) restores
        (inductionHypothesis (Nat.le_of_succ_le kept))

/-- The parameter is as the last of the layers that rebind it says, or as on the floor. -/
theorem Layers.cases_value
    {own : Parameter}
    (layers : Layers host limit start address floor since now size pending parameter)
    (onFloor : ∀ size pending parameter, floor size pending parameter → parameter = own) :
    parameter = own ∨
      ∃ began rebound value,
        since ≤ began ∧
          start.IsRebound host limit rebound began now ∧
            Special.newValue? rebound address = some value := by
  induction layers with
  | floor atFloor => exact .inl (onFloor _ _ _ atFloor)
  | level _ inductionHypothesis => exact inductionHypothesis
  | ordinary _ _ inductionHypothesis => exact inductionHypothesis
  | @rebound _ _ rebound _ _ began recent hasRebound _ _ _ inductionHypothesis =>
      cases bound : Special.newValue? rebound address with
      | none =>
          rw [Parameter.rebound_of_none bound]
          exact inductionHypothesis
      | some value => exact .inr ⟨began, rebound, value, recent, ⟨_, hasRebound⟩, bound⟩

/-- Rebinding changes the value of a parameter and nothing else about it. -/
theorem Layers.converter_eq
    {own : Parameter}
    (layers : Layers host limit start address floor since now size pending parameter)
    (onFloor :
      ∀ size pending parameter,
        floor size pending parameter →
        parameter.converter = own.converter) :
    parameter.converter = own.converter := by
  induction layers with
  | floor atFloor => exact onFloor _ _ _ atFloor
  | level _ inductionHypothesis => exact inductionHypothesis
  | ordinary _ _ inductionHypothesis => exact inductionHypothesis
  | rebound _ _ _ _ _ inductionHypothesis => exact inductionHypothesis

/-- Watched forms go on, or they have ended and parameters have their old values again. -/
theorem restoring_cases
    {body : Script Value}
    {previous : List (Nat × Value)}
    {machine : Machine}
    (onward :
      following =
        ofProgress outside ((body.attempt.bind (Special.restore previous)).advance machine))
    (stays : Script.Within .whole (Value.Belongs .whole) size body)
    (grown : size ≤ machine.store.sizes) :
    (∃ last : Store,
      machine.store.Follows .whole last ∧
        following.pending = outside ∧
          following.machine.store = (Special.exchange [] last previous).2) ∨
    (∃ waiting : Pending,
      machine.store.Follows .whole following.machine.store ∧
        following.pending = waiting :: outside ∧
          waiting.Watches previous following.machine.store.sizes) := by
  rw [Progress.advance_restoring] at onward
  have progress := Script.Within.advance stays (fun _ _ _ _ _ => Value.belongs_whole _)
    machine.within_whole grown
  cases shape : body.advance machine with
  | ended result last =>
      rw [shape] at progress onward
      obtain ⟨_, follows, _⟩ := progress
      refine .inl ⟨last.store, follows, ?_, ?_⟩
      · rw [onward, ofProgress_ended_pending]
      · rw [onward, ofProgress_ended_machine]
  | asked request next last =>
      rw [shape] at progress onward
      obtain ⟨_, follows, _, goesOn⟩ := progress
      subst onward
      refine .inr ⟨_, follows, rfl, request, next, rfl, fun later result more => ?_⟩
      exact goesOn later result more (outcome_whole result)

/-- At the moment after the time nothing is lost, and the layers give the value of the parameter. -/
def Settles
    (host : Host)
    (limit : Nat)
    (start : Moment)
    (address : Nat)
    (floor : Sizes → List Pending → Parameter → Prop)
    (since now : Nat)
    (size : Sizes)
    (following : Moment) : Prop :=
  size ≤ following.machine.store.sizes ∧
    ∃ parameter,
      following.machine.store.parameters[address]? = some parameter ∧
        Layers host limit start address floor since (now + 1) following.machine.store.sizes
          following.pending parameter

section Carrying

variable
  (floorMono :
    ∀ size larger pending parameter,
      floor size pending parameter →
      size ≤ larger →
      floor larger pending parameter)
  (there : start.after? host limit (now + 1) = some following)

include floorMono there

/-- When watched forms have ended, the parameter has its old value. -/
theorem Layers.restoring
    {body : Script Value}
    {previous : List (Nat × Value)}
    {machine : Machine}
    (onward :
      following =
        ofProgress outside ((body.attempt.bind (Special.restore previous)).advance machine))
    (recent : since ≤ began)
    (hasRebound :
      outside.length < following.pending.length →
      start.HasRebound host limit rebound outside began (now + 1))
    (stays : Script.Within .whole (Value.Belongs .whole) size body)
    (grown : size ≤ machine.store.sizes)
    (found : machine.store.parameters[address]? = some (parameter.rebound rebound address))
    (restores :
      ∀ store : Store,
        store.parameters[address]? = some (parameter.rebound rebound address) →
        (Special.exchange [] store previous).2.parameters[address]? = some parameter)
    (layers : Layers host limit start address floor since now size outside parameter) :
    start.Settles host limit address floor since now size following := by
  rcases restoring_cases onward stays grown with
    ⟨last, follows, waits, ended⟩ | ⟨waiting, follows, waits, watches⟩
  · have further : size ≤ following.machine.store.sizes := by
      rw [ended, Store.sizes_exchange]
      exact le_trans grown follows.grown
    refine ⟨further, parameter, ?_, ?_⟩
    · rw [ended]
      exact restores last (follows.steady trivial found)
    · rw [waits]
      exact layers.later floorMono there further (le_of_eq (congrArg List.length waits.symm))
  · have further := le_trans grown follows.grown
    have deeper : outside.length < following.pending.length := by
      rw [waits]
      exact Nat.lt_succ_self _
    refine ⟨further, _, follows.steady trivial found, ?_⟩
    rw [waits]
    refine .rebound recent (hasRebound deeper) watches restores ?_
    exact layers.later floorMono there further (Nat.le_of_lt deeper)

/-- A script that is carried out may rebind parameters. -/
theorem Layers.carrying
    (here : start.after? host limit now = some moment)
    (early : since ≤ now)
    (carries : moment.carries? host = some (script, outside))
    (stays :
      Script.Stays .whole (Special.Rebinds .whole) (Step.Belongs .whole)
        moment.machine.store.sizes script)
    (found : moment.machine.store.parameters[address]? = some parameter)
    (layers :
      Layers host limit start address floor since now moment.machine.store.sizes outside
        parameter) :
    start.Settles host limit address floor since now moment.machine.store.sizes following := by
  have onward : following = ofProgress outside (script.advance moment.machine) := by
    rw [after?_succ here, next?_of_carries? carries] at there
    exact (Option.some.inj there).symm
  rcases stays.advance (fun _ _ _ => Special.Rebinds.mono)
    (fun _ _ _ _ _ => Step.belongs_whole _) moment.machine.within_whole (le_refl _) with
    progress | ⟨last, arrived, comes, isEnd, _, follows⟩
  · cases shape : script.advance moment.machine with
    | ended result last =>
        rw [shape] at progress onward
        obtain ⟨_, follows, _⟩ := progress
        have waits : following.pending = outside := by
          rw [onward, ofProgress_ended_pending]
        have ended : following.machine = last := by
          rw [onward, ofProgress_ended_machine]
        rw [← ended] at follows
        refine ⟨follows.grown, parameter, follows.steady trivial found, ?_⟩
        rw [waits]
        exact layers.later floorMono there follows.grown
          (le_of_eq (congrArg List.length waits.symm))
    | asked request next last =>
        rw [shape] at progress onward
        obtain ⟨_, follows, _, goesOn⟩ := progress
        subst onward
        refine ⟨follows.grown, parameter, follows.steady trivial found, ?_⟩
        refine .ordinary ?_ (layers.later floorMono there follows.grown (Nat.le_succ _))
        exact fun later result more => goesOn later result more (outcome_whole result)
  · cases isEnd with
    | @rebinding scope rebound forms _ _ =>
        have rebinds : moment.Rebinds host rebound outside :=
          ⟨script, scope, forms, arrived, carries, comes⟩
        have foundArrived := follows.steady trivial found
        rw [comes.advance, Progress.Settles.advance_whileRebound] at onward
        refine Layers.restoring floorMono there onward early (fun more => ?_)
          (Special.within_bodyValue (allBelong_whole forms)) ?_
          (Store.parameters_exchange foundArrived)
          (fun _ => Store.parameters_restore foundArrived) layers
        · refine ⟨Nat.lt_succ_self _, ⟨moment, here, rebinds⟩, fun time after before => ?_⟩
          obtain rfl : time = now + 1 := Nat.le_antisymm before after
          exact ⟨following, there, more⟩
        · change _ ≤ (Special.exchange [] arrived.store rebound).2.sizes
          rw [Store.sizes_exchange]
          exact follows.grown

/-- Opening a level leaves parameters alone. -/
theorem Layers.opening
    {step : Step}
    {machine : Machine}
    (onward : following = ofOpening limit step pending machine)
    (found : machine.store.parameters[address]? = some parameter)
    (layers :
      Layers host limit start address floor since now machine.store.sizes pending parameter) :
    start.Settles host limit address floor since now machine.store.sizes following := by
  unfold ofOpening at onward
  split at onward
  · subst onward
    exact ⟨le_refl _, parameter, found,
      layers.later floorMono there (le_refl _) (le_refl _)⟩
  · subst onward
    exact ⟨le_refl _, parameter, found,
      .level (layers.later floorMono there (le_refl _) (Nat.le_succ _))⟩

/-- From each moment to the next one the layers are kept, unless the floor is left. -/
theorem Layers.next
    (hostStays : host.Stays .whole)
    (here : start.after? host limit now = some moment)
    (early : since ≤ now)
    (found : moment.machine.store.parameters[address]? = some parameter)
    (layers :
      Layers host limit start address floor since now moment.machine.store.sizes moment.pending
        parameter) :
    start.Settles host limit address floor since now moment.machine.store.sizes following ∨
      (∃ result, moment.activity = .returning result) ∧
        floor moment.machine.store.sizes moment.pending parameter := by
  have next : moment.next? host limit = some following := (after?_succ here).symm.trans there
  have same {machine : Machine} (isSame : following.machine.store = machine.store)
      (found : machine.store.parameters[address]? = some parameter)
      (layers :
        Layers host limit start address floor since now machine.store.sizes following.pending
          parameter) :
      start.Settles host limit address floor since now machine.store.sizes following := by
    have further : machine.store.sizes ≤ following.machine.store.sizes :=
      le_of_eq (by rw [isSame])
    refine ⟨further, parameter, ?_, layers.later floorMono there further (le_refl _)⟩
    rw [isSame]
    exact found
  cases steps_of_next? next with
  | evaluating =>
      exact .inl (Layers.opening floorMono there rfl found layers)
  | calling =>
      exact .inl (Layers.opening floorMono there rfl found layers)
  | finishing | reaching | waiting =>
      exact .inl (same rfl found layers)
  | @beginning step script pending machine amounts =>
      have carries :
          (⟨.serving (.finish step), pending, machine⟩ : Moment).carries? host =
            some (script, pending) := by
        simp only [carries?, amounts]
      exact .inl (Layers.carrying floorMono there here early carries
        (Machine.stays_stepScript hostStays step.belongs_whole amounts) found layers)
  | closing =>
      cases layers with
      | floor atFloor => exact .inr ⟨⟨_, rfl⟩, atFloor⟩
      | level layers => exact .inl (same rfl found layers)
      | rebound _ _ watches _ _ =>
          obtain ⟨_, _, shape, _⟩ := watches
          cases shape
  | resuming =>
      cases layers with
      | floor atFloor => exact .inr ⟨⟨_, rfl⟩, atFloor⟩
      | ordinary stays layers =>
          exact .inl (Layers.carrying floorMono there here early rfl
            (stays _ _ (le_refl _)) found layers)
      | rebound recent hasRebound watches restores layers =>
          obtain ⟨_, body, shape, stays⟩ := watches
          cases shape
          exact .inl (Layers.restoring floorMono there rfl recent (hasRebound.next there)
            (stays _ _ (le_refl _)) (le_refl _) found restores layers)

end Carrying

end Layered

theorem exists_before
    (there : start.after? host limit (now + 1) = some following) :
    ∃ moment, start.after? host limit now = some moment := by
  induction now generalizing start with
  | zero => exact ⟨start, rfl⟩
  | succ now inductionHypothesis =>
      unfold after? at there ⊢
      cases next : start.next? host limit with
      | none => simp [next] at there
      | some second =>
          rw [next] at there
          exact inductionHypothesis there

section Run

variable
  {address : Nat}
  {parameter : Parameter}
  (hostStays : host.Stays .whole)

include hostStays

/-- Nothing waits at the beginning of a run. -/
def AtBottom
    (own : Parameter)
    (_ : Sizes)
    (pending : List Pending)
    (parameter : Parameter) : Prop :=
  pending = [] ∧ parameter = own

/-- At every moment of a run its layers give the value of a parameter. -/
theorem layers_of_after?
    (nothing : start.pending = [])
    (found : start.machine.store.parameters[address]? = some parameter)
    (here : start.after? host limit now = some moment) :
    start.machine.store.sizes ≤ moment.machine.store.sizes ∧
      ∃ held,
        moment.machine.store.parameters[address]? = some held ∧
          Layers host limit start address (AtBottom parameter) 0 now
            moment.machine.store.sizes moment.pending held := by
  induction now generalizing moment with
  | zero =>
      obtain rfl := Option.some.inj here
      exact ⟨le_refl _, parameter, found, .floor ⟨nothing, rfl⟩⟩
  | succ now inductionHypothesis =>
      obtain ⟨before, earlier⟩ := exists_before here
      obtain ⟨grown, held, foundBefore, layers⟩ := inductionHypothesis earlier
      rcases layers.next (fun _ _ _ _ atBottom _ => atBottom) here hostStays earlier
        (Nat.zero_le _) foundBefore with settles | ⟨⟨result, returns⟩, waits, _⟩
      · exact ⟨le_trans grown settles.1, settles.2⟩
      · rw [after?_succ earlier] at here
        obtain ⟨activity, pending, machine⟩ := before
        obtain rfl : activity = .returning result := returns
        obtain rfl : pending = [] := waits
        cases here

/-- Watched forms wait right above what waits outside, and the parameter has the given value. -/
def AtRebinding
    (own : Parameter)
    (outside : List Pending)
    (size : Sizes)
    (pending : List Pending)
    (parameter : Parameter) : Prop :=
  parameter = own ∧
    ∃ waiting previous, pending = waiting :: outside ∧ waiting.Watches previous size

omit hostStays in
theorem AtRebinding.mono
    {own : Parameter}
    {size larger : Sizes}
    {pending : List Pending}
    (atRebinding : AtRebinding own outside size pending parameter)
    (grown : size ≤ larger) :
    AtRebinding own outside larger pending parameter := by
  obtain ⟨same, waiting, previous, waits, watches⟩ := atRebinding
  exact ⟨same, waiting, previous, waits, watches.mono grown⟩

omit hostStays in
/-- Watched forms that have not ended wait again. -/
theorem AtRebinding.of_restoring
    {body : Script Value}
    {previous : List (Nat × Value)}
    {machine : Machine}
    {size : Sizes}
    (onward :
      following =
        ofProgress outside ((body.attempt.bind (Special.restore previous)).advance machine))
    (stays : Script.Within .whole (Value.Belongs .whole) size body)
    (grown : size ≤ machine.store.sizes)
    (found : machine.store.parameters[address]? = some parameter)
    (more : outside.length < following.pending.length) :
    following.machine.store.parameters[address]? = some parameter ∧
      AtRebinding parameter outside following.machine.store.sizes following.pending
        parameter := by
  rcases restoring_cases onward stays grown with
    ⟨_, _, waits, _⟩ | ⟨waiting, follows, waits, watches⟩
  · rw [waits] at more
    exact (Nat.lt_irrefl _ more).elim
  · exact ⟨follows.steady trivial found, rfl, waiting, previous, waits, watches⟩

/-- Whatever is carried out does nothing to parameters before it exchanges them. -/
theorem Layers.stays_exchanges
    {held : Parameter}
    {since : Nat}
    {size : Sizes}
    (layers :
      Layers host limit start address (AtBottom parameter) since now size moment.pending held)
    (carries : moment.carries? host = some (script, outside)) :
    Script.Stays .whole (fun _ => Special.Exchanges) (Step.Belongs .whole) size script := by
  obtain ⟨activity, pending, machine⟩ := moment
  match activity, pending, carries with
  | .serving (.finish step), pending, carries =>
      cases amounts : Machine.stepScript host step with
      | inl value => simp [carries?, amounts] at carries
      | inr other =>
          simp only [carries?, amounts, Option.some.injEq, Prod.mk.injEq] at carries
          obtain ⟨rfl, rfl⟩ := carries
          exact Special.Exchanges.of_rebinds
            (Machine.stays_stepScript hostStays step.belongs_whole amounts)
  | .returning result, .construct _ next :: rest, carries =>
      simp only [carries?, Option.some.injEq, Prod.mk.injEq] at carries
      obtain ⟨rfl, rfl⟩ := carries
      cases layers with
      | floor atBottom => cases atBottom.1
      | ordinary stays _ => exact Special.Exchanges.of_rebinds (stays _ _ (le_refl _))
      | rebound _ _ watches _ _ =>
          obtain ⟨_, body, shape, stays⟩ := watches
          cases shape
          exact Special.Exchanges.of_restoring (stays _ _ (le_refl _))

/-- Right after parameters have been rebound, watched forms wait that have not ended. -/
theorem HasRebound.begins
    (nothing : start.pending = [])
    (found : start.machine.store.parameters[address]? = some parameter)
    (hasRebound : start.HasRebound host limit rebound outside began now) :
    ∃ held : Parameter,
      held.converter = parameter.converter ∧
        ∀ following,
          start.after? host limit (began + 1) = some following →
          following.machine.store.parameters[address]? = some (held.rebound rebound address) ∧
            AtRebinding (held.rebound rebound address) outside
              following.machine.store.sizes following.pending
              (held.rebound rebound address) := by
  obtain ⟨moment, here, script, scope, forms, arrived, carries, comes⟩ := hasRebound.rebinds
  obtain ⟨_, held, foundHeld, layers⟩ := layers_of_after? hostStays nothing found here
  have follows :=
    Special.Exchanges.follows (layers.stays_exchanges hostStays carries) (le_refl _) comes
  have foundArrived := follows.steady trivial foundHeld
  refine ⟨held, ?_, fun following there => ?_⟩
  · exact layers.converter_eq fun _ _ _ atBottom => congrArg Parameter.converter atBottom.2
  · have onward : following = ofProgress outside (script.advance moment.machine) := by
      rw [after?_succ here, next?_of_carries? carries] at there
      exact (Option.some.inj there).symm
    rw [comes.advance, Progress.Settles.advance_whileRebound] at onward
    obtain ⟨other, thereToo, more⟩ :=
      hasRebound.since (began + 1) (Nat.lt_succ_self _) hasRebound.earlier
    obtain rfl := Option.some.inj (there.symm.trans thereToo)
    exact AtRebinding.of_restoring onward (Special.within_bodyValue (allBelong_whole forms))
      (le_refl _) (Store.parameters_exchange foundArrived) more

/-- While the watched forms are evaluated, layers above them give the value of the parameter. -/
theorem HasRebound.layers
    {own : Parameter}
    (begins :
      ∀ following,
        start.after? host limit (began + 1) = some following →
        following.machine.store.parameters[address]? = some own ∧
          AtRebinding own outside following.machine.store.sizes following.pending own)
    (hasRebound : start.HasRebound host limit rebound outside began now)
    (here : start.after? host limit now = some moment) :
    ∃ held,
      moment.machine.store.parameters[address]? = some held ∧
        Layers host limit start address (AtRebinding own outside) (began + 1) now
          moment.machine.store.sizes moment.pending held := by
  induction now generalizing moment with
  | zero => exact (Nat.not_lt_zero _ hasRebound.earlier).elim
  | succ now inductionHypothesis =>
      rcases Nat.lt_or_eq_of_le (Nat.le_of_lt_succ hasRebound.earlier) with earlier | rfl
      · obtain ⟨before, there⟩ := exists_before here
        have stillRebound : start.HasRebound host limit rebound outside began now :=
          ⟨earlier, hasRebound.rebinds, fun time after notAfter =>
            hasRebound.since time after (Nat.le_succ_of_le notAfter)⟩
        obtain ⟨held, found, layers⟩ := inductionHypothesis stillRebound there
        have mono :
            ∀ size larger pending parameter,
              AtRebinding own outside size pending parameter →
              size ≤ larger →
              AtRebinding own outside larger pending parameter :=
          fun _ _ _ _ => AtRebinding.mono
        rcases layers.next mono here hostStays there earlier found with
          settles | ⟨⟨result, returns⟩, atRebinding⟩
        · exact settles.2
        -- The watched forms go on, and they do not end here.
        · obtain ⟨activity, pending, machine⟩ := before
          obtain ⟨rfl, waiting, previous, waits, _, body, rfl, stays⟩ := atRebinding
          obtain rfl : activity = .returning result := returns
          obtain rfl : pending = _ := waits
          have onward :
              moment =
                ofProgress outside
                  (((body result).attempt.bind (Special.restore previous)).advance machine) := by
            rw [after?_succ there] at here
            exact (Option.some.inj here).symm
          obtain ⟨other, hereToo, more⟩ :=
            hasRebound.since (now + 1) hasRebound.earlier (le_refl _)
          obtain rfl := Option.some.inj (here.symm.trans hereToo)
          obtain ⟨foundHere, atRebinding⟩ := AtRebinding.of_restoring onward
            (stays _ _ (le_refl _)) (le_refl _) found more
          exact ⟨held, foundHere, .floor atRebinding⟩
      · obtain ⟨found, atRebinding⟩ := begins moment here
        exact ⟨own, found, .floor atRebinding⟩

/-- Where no running rebinding names the parameter, it has its value from the beginning. -/
theorem parameter_of_unbound
    (nothing : start.pending = [])
    (found : start.machine.store.parameters[address]? = some parameter)
    (here : start.after? host limit now = some moment)
    (unbound :
      ∀ began rebound,
        start.IsRebound host limit rebound began now →
        Special.newValue? rebound address = none) :
    moment.machine.store.parameters[address]? = some parameter := by
  obtain ⟨_, held, foundHeld, layers⟩ := layers_of_after? hostStays nothing found here
  rcases layers.cases_value fun _ _ _ atBottom => atBottom.2 with
    rfl | ⟨began, rebound, value, _, isRebound, bound⟩
  · exact foundHeld
  · rw [unbound began rebound isRebound] at bound
    cases bound

/-- Elsewhere it has the value that the last one has given it. -/
theorem parameter_of_bound
    {value : Value}
    (nothing : start.pending = [])
    (found : start.machine.store.parameters[address]? = some parameter)
    (here : start.after? host limit now = some moment)
    (isRebound : start.IsRebound host limit rebound began now)
    (bound : Special.newValue? rebound address = some value)
    (innermost :
      ∀ later others,
        began < later →
        start.IsRebound host limit others later now →
        Special.newValue? others address = none) :
    moment.machine.store.parameters[address]? = some { parameter with value := value } := by
  obtain ⟨outside, hasRebound⟩ := isRebound
  obtain ⟨held, sameConverter, begins⟩ := hasRebound.begins hostStays nothing found
  obtain ⟨current, foundCurrent, layers⟩ := hasRebound.layers hostStays begins here
  rcases layers.cases_value fun _ _ _ atRebinding => atRebinding.1 with
    rfl | ⟨later, others, newer, after, isRebound, boundLater⟩
  · rw [foundCurrent, Parameter.rebound_of_some bound, sameConverter]
  · rw [innermost later others after isRebound] at boundLater
    cases boundLater

end Run

end Moment

end SmallScheme
