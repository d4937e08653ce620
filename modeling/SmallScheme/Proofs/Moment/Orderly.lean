import SmallScheme.Proofs.Moment.Surroundings

namespace SmallScheme

/-!
# Orderly moments

A moment is orderly when everything that waits encloses what is above it, down to the surroundings
in which the run began.  Every moment of a run that begins orderly is orderly.  What surrounds the
end of a request is therefore what surrounded its beginning, however the request ends.
-/

open Script

/-- What waits, innermost first, encloses the inner surroundings one after the other. -/
inductive Surrounded (catches : Prop) (base : Surroundings) :
    List Pending → Surroundings → Prop
  | bare :
      Surrounded catches base [] base
  | within
      {pending : Pending}
      {rest : List Pending}
      {outer inner : Surroundings} :
      pending.Encloses catches outer inner →
      Surrounded catches base rest outer →
      Surrounded catches base (pending :: rest) inner

/-- Escapes are numbered one after the other. -/
def Context.Numbered (context : Context) : Prop :=
  ∀ identity ∈ context.escapes, identity ≤ context.lastEscape

/-- From one context to a later one, escapes have only been closed or newly made. -/
structure Context.Renewed (before after : Context) : Prop where
  later : before.lastEscape ≤ after.lastEscape
  fresh :
    ∀ identity ∈ after.escapes,
      identity ∈ before.escapes ∨ before.lastEscape < identity

/-- All that waits tells what surrounds the moment, from the base of the run on. -/
structure Moment.Orderly (catches : Prop) (base : Surroundings) (moment : Moment) : Prop where
  surrounded : Surrounded catches base moment.pending moment.machine.surroundings
  numbered : moment.machine.context.Numbered
  admits :
    ¬catches →
      ∀ result,
        moment.activity = .returning result →
        moment.machine.surroundings.Admits result

/-- What the next moment can be. -/
inductive Moment.Moves (catches : Prop) (base : Surroundings) (limit : Nat) (moment : Moment) :
    Moment → Prop
  | opening (step : Step) :
      Moves catches base limit moment (ofOpening limit step moment.pending moment.machine)
  | finishing (value : Value) :
      Moves catches base limit moment ⟨.returning (.ok value), moment.pending, moment.machine⟩
  /-- A text without an end is being written. -/
  | waiting :
      moment.activity = .serving .endless →
      Moves catches base limit moment moment
  | closing {result : Except Unwind Value} {rest : List Pending} :
      moment.activity = .returning result →
      moment.pending = .level :: rest →
      Moves catches base limit moment
        ⟨.returning result, rest, { moment.machine with depth := moment.machine.depth - 1 }⟩
  /-- A script has begun or has gone on, and has come to its end or to a request. -/
  | settling {outer : Surroundings} {rest : List Pending} {progress : Progress Step} :
      Surrounded catches base rest outer →
      (∀ identity ∈ outer.escapes, identity ∈ moment.machine.context.escapes) →
      outer.depth = moment.machine.depth →
      progress.Settles catches outer moment.machine.context.lastEscape →
      Moves catches base limit moment (ofProgress rest progress)

variable
  {catches : Prop}
  {base : Surroundings}
  {host : Host}
  {limit : Nat}

namespace Context.Renewed

theorem refl
    (context : Context) :
    context.Renewed context where
  later := Nat.le_refl _
  fresh _ member := .inl member

theorem trans
    {first second third : Context}
    (earlier : first.Renewed second)
    (later : second.Renewed third) :
    first.Renewed third where
  later := Nat.le_trans earlier.later later.later
  fresh identity member := by
    rcases later.fresh identity member with inSecond | isNew
    · exact earlier.fresh identity inSecond
    · exact .inr (Nat.lt_of_le_of_lt earlier.later isNew)

end Context.Renewed

/-- Beyond its surroundings a machine has only its store and the number of its last escape. -/
theorem Machine.of_surroundings
    {machine : Machine}
    {inner : Surroundings}
    (here : machine.surroundings = inner) :
    ∃ store lastEscape,
      machine = ⟨store, ⟨inner.handlers, inner.escapes, lastEscape⟩, inner.depth⟩ := by
  subst here
  exact ⟨machine.store, machine.context.lastEscape, rfl⟩

/-- An escape that is running outside is running inside. -/
theorem Pending.Encloses.escapes_subset
    {pending : Pending}
    {outer inner : Surroundings}
    (encloses : pending.Encloses catches outer inner)
    {identity : Nat}
    (member : identity ∈ outer.escapes) :
    identity ∈ inner.escapes := by
  cases encloses with
  | receiver =>
      exact List.mem_cons_of_mem _ member
  | _ => exact member

/-- Only levels count for the depth. -/
theorem Pending.Encloses.depth_eq
    {request : Request}
    {next : Except Unwind Value → Script Step}
    {outer inner : Surroundings}
    (encloses : (Pending.construct request next).Encloses catches outer inner) :
    outer.depth = inner.depth := by
  cases encloses <;> rfl

/-- Closing an escape leaves those that were running before it was made. -/
theorem Context.closeEscape_of_not_mem
    {identity lastEscape : Nat}
    {handlers : List Value}
    {escapes : List Nat}
    (fresh : identity ∉ escapes) :
    ((⟨handlers, identity :: escapes, lastEscape⟩ : Context).closeEscape identity).2 =
      ⟨handlers, escapes, lastEscape⟩ := by
  have others : escapes.filter (· ≠ identity) = escapes := by
    refine List.filter_eq_self.mpr fun other member => ?_
    simp only [ne_eq, decide_eq_true_eq]
    rintro rfl
    exact fresh member
  rw [Context.closeEscape, List.filter_cons_of_neg (by simp), others]

namespace Progress.Settles

/-- A receiver catches its own escape, and any other was running before it. -/
private theorem of_leaveReceiver
    {identity lastEscape : Nat}
    {outer : Surroundings}
    {store : Store}
    {result : Except Unwind Value}
    (fresh : identity ∉ outer.escapes)
    (admits :
      ¬catches → Surroundings.Admits { outer with escapes := identity :: outer.escapes } result) :
    Settles catches outer lastEscape
      ((Special.leaveReceiver identity result).advance
        ⟨store, ⟨outer.handlers, identity :: outer.escapes, lastEscape⟩, outer.depth⟩) := by
  rw [advance_leaveReceiver, Context.closeEscape_of_not_mem fresh]
  refine .ended rfl rfl fun strict target value same => ?_
  match result with
  | .ok _ => cases same
  | .error (.fault _) => cases same
  | .error (.escape other escaped) =>
      by_cases isOwn : other = identity
      · simp [isOwn] at same
      · simp only [if_neg isOwn, Except.error.injEq, Unwind.escape.injEq] at same
        obtain ⟨rfl, rfl⟩ := same
        have member := admits strict other escaped rfl
        exact (List.mem_cons.mp member).resolve_left isOwn

/--
A construct that goes on after its request comes back to its own surroundings.  The cases are the
ways in which something that waits can enclose what it waits for.
-/
theorem of_resuming
    {request : Request}
    {next : Except Unwind Value → Script Step}
    {outer : Surroundings}
    {machine : Machine}
    (encloses : (Pending.construct request next).Encloses catches outer machine.surroundings)
    (numbered : machine.context.Numbered)
    {result : Except Unwind Value}
    (admits : ¬catches → machine.surroundings.Admits result) :
    Settles catches outer machine.context.lastEscape ((next result).advance machine) := by
  generalize here : machine.surroundings = inner at encloses admits
  cases encloses with
  | ordinary _ nested resumes =>
      subst here
      cases result with
      | ok value =>
          exact of_leads (resumes.value value) machine numbered
      | error reason =>
          rcases resumes.reason with passes | ⟨_, leads⟩
          · exact of_passes (passes reason) admits
          · exact of_leads (leads reason) machine numbered
  | @receiver callee identity _ fresh =>
      obtain ⟨store, lastEscape, rfl⟩ := Machine.of_surroundings here
      exact of_leaveReceiver fresh admits
  | @thunk handler callee =>
      obtain ⟨store, lastEscape, rfl⟩ := Machine.of_surroundings here
      cases result with
      | ok value =>
          exact .ended rfl rfl fun _ => admits_ok _ _
      | error reason =>
          cases reason with
          | fault cause =>
              exact of_leads Special.leads_handle
                ⟨store, ⟨outer.handlers, outer.escapes, lastEscape⟩, outer.depth⟩ numbered
          | escape identity value =>
              refine .ended rfl rfl fun strict target escaped same => ?_
              cases same
              exact admits strict identity value rfl
  | @handler _ value _ =>
      rw [advance_leaveHandler]
      subst here
      exact .ended rfl rfl fun strict => admits_map (admits strict)
  | @middle callee after =>
      subst here
      exact asking (.last admits)
  | @last after ending _ legitimate =>
      subst here
      cases result with
      | error reason =>
          exact .ended rfl rfl fun strict => admits_becomes (admits strict) (.same reason)
      | ok _ =>
          cases ending with
          | ok value =>
              exact .ended rfl rfl fun _ => admits_ok _ _
          | error reason =>
              exact .ended rfl rfl fun strict => admits_becomes (legitimate strict) (.same reason)
  | @rebound _ next previous _ nested resumes =>
      subst here
      cases result with
      | ok value =>
          exact of_rebound previous (resumes.value value) machine
      | error reason =>
          rcases resumes.reason with passes | ⟨_, leads⟩
          · exact of_passes_rebound previous (passes reason) admits
          · exact of_rebound previous (leads reason) machine
  | @finishing step previous =>
      subst here
      exact of_restore previous admits

end Progress.Settles

namespace Moment.Orderly

/-- A script that has come to its end or to a request leaves an orderly moment. -/
private theorem of_settles
    {pending : List Pending}
    {outer : Surroundings}
    {lastEscape : Nat}
    {progress : Progress Step}
    (settles : progress.Settles catches outer lastEscape)
    (surrounded : Surrounded catches base pending outer)
    (numbered : ∀ identity ∈ outer.escapes, identity ≤ lastEscape) :
    (ofProgress pending progress).Orderly catches base ∧
      lastEscape ≤ (ofProgress pending progress).machine.context.lastEscape ∧
      ∀ identity ∈ (ofProgress pending progress).machine.context.escapes,
        identity ∈ outer.escapes ∨ lastEscape < identity := by
  cases settles with
  | @ended result machine same latest admits =>
      subst same
      have numberedHere : machine.context.Numbered := by
        intro identity member
        exact latest ▸ numbered identity member
      cases result with
      | ok step =>
          refine ⟨⟨surrounded, numberedHere, ?_⟩, Nat.le_of_eq latest.symm, ?_⟩
          · intro _ result returning
            cases returning
          · exact fun _ member => .inl member
      | error reason =>
          refine ⟨⟨surrounded, numberedHere, ?_⟩, Nat.le_of_eq latest.symm, ?_⟩
          · intro strict result returning
            cases returning
            intro identity value same
            exact admits strict identity value (by rw [Except.error.inj same])
          · exact fun _ member => .inl member
  | @asked request next machine encloses later fresh =>
      refine ⟨⟨.within encloses surrounded, ?_, ?_⟩, later, ?_⟩
      · intro identity member
        rcases fresh identity member with inOuter | isNew
        · exact Nat.le_trans (numbered identity inOuter) later
        · exact isNew.2
      · intro _ result returning
        cases returning
      · intro identity member
        exact (fresh identity member).imp_right And.left

/-- A level that is opened surrounds what it is opened for. -/
private theorem of_opening
    {moment : Moment}
    (orderly : moment.Orderly catches base)
    (step : Step) :
    (ofOpening limit step moment.pending moment.machine).Orderly catches base ∧
      moment.machine.context.Renewed
        (ofOpening limit step moment.pending moment.machine).machine.context := by
  unfold ofOpening
  split
  · refine ⟨⟨orderly.surrounded, orderly.numbered, ?_⟩, .refl _⟩
    intro _ result returning identity value same
    cases returning
    cases same
  · refine ⟨⟨.within (.level _) orderly.surrounded, orderly.numbered, ?_⟩, .refl _⟩
    intro _ result returning
    cases returning

/-- A level that is closed leaves what surrounded it. -/
private theorem of_closing
    {result : Except Unwind Value}
    {rest : List Pending}
    {machine : Machine}
    (orderly : (⟨.returning result, .level :: rest, machine⟩ : Moment).Orderly catches base) :
    (⟨.returning result, rest, { machine with depth := machine.depth - 1 }⟩ : Moment).Orderly
      catches base := by
  obtain ⟨surrounded, numbered, admits⟩ := orderly
  dsimp only at surrounded numbered admits
  generalize here : machine.surroundings = inner at surrounded
  cases surrounded with
  | within encloses surrounded =>
      cases encloses with
      | level outer =>
          obtain ⟨store, lastEscape, rfl⟩ := Machine.of_surroundings here
          exact ⟨surrounded, numbered, admits⟩

/-- An orderly moment moves on in one of five ways. -/
theorem moves
    (restrained : host.Restrained catches)
    {moment later : Moment}
    (orderly : moment.Orderly catches base)
    (follows : moment.next? host limit = some later) :
    moment.Moves catches base limit later := by
  cases steps_of_next? follows with
  | evaluating =>
      exact .opening _
  | calling =>
      exact .opening _
  | finishing _ | reaching =>
      exact .finishing _
  | waiting =>
      exact .waiting rfl
  | @beginning step script pending machine amounts =>
      have leads := Machine.leads_stepScript restrained amounts
      have settles := Progress.Settles.of_leads leads machine orderly.numbered
      exact .settling orderly.surrounded (fun _ member => member) rfl settles
  | closing =>
      exact .closing rfl rfl
  | @resuming result request next rest machine =>
      have surrounded := orderly.surrounded
      cases surrounded with
      | within encloses surrounded =>
          have settles := Progress.Settles.of_resuming encloses orderly.numbered
            (fun strict => orderly.admits strict result rfl)
          refine .settling surrounded ?_ encloses.depth_eq settles
          exact fun _ member => encloses.escapes_subset member

/-- Orderliness is kept from each moment to the next, and all escapes that are made are new. -/
theorem next
    (restrained : host.Restrained catches)
    {moment later : Moment}
    (orderly : moment.Orderly catches base)
    (follows : moment.next? host limit = some later) :
    later.Orderly catches base ∧
      moment.machine.context.Renewed later.machine.context := by
  cases orderly.moves restrained follows with
  | opening step =>
      exact of_opening orderly step
  | finishing value =>
      refine ⟨⟨orderly.surrounded, orderly.numbered, ?_⟩, .refl _⟩
      intro _ result returning identity escaped same
      cases returning
      cases same
  | waiting _ =>
      exact ⟨orderly, .refl _⟩
  | closing returning waits =>
      obtain ⟨activity, pending, machine⟩ := moment
      dsimp only at returning waits
      subst returning waits
      exact ⟨of_closing orderly, .refl _⟩
  | settling surrounded included _ settles =>
      have numbered := fun identity member => orderly.numbered identity (included identity member)
      obtain ⟨after, later, fresh⟩ := of_settles settles surrounded numbered
      refine ⟨after, later, fun identity member => ?_⟩
      exact (fresh identity member).imp_left (included identity)

end Moment.Orderly

end SmallScheme
