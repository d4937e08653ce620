import SmallScheme.Proofs.Moment.Event

namespace SmallScheme

/-!
# The events of a run

Each moment tells which enclosures are around it, and each step from a moment to the next one enters
an enclosure, leaves the innermost one, or does neither.  So the events of every run nest, and what
has been entered and not left is exactly what waits.
-/

open Script

namespace Enclosure

/-- The enclosures are all those among what waits, innermost first. -/
inductive Around : List Enclosure → List Pending → Prop
  | nil :
      Around [] []
  | enclosure {enclosure : Enclosure} {around : List Enclosure} {pending : List Pending} :
      pending = enclosure.waiting →
      Around around enclosure.below →
      Around (enclosure :: around) pending
  | other {waiting : Pending} {around : List Enclosure} {below : List Pending} :
      (∀ enclosure : Enclosure, waiting :: below ≠ enclosure.waiting) →
      Around around below →
      Around around (waiting :: below)

end Enclosure

namespace Moment

/-- The thunk of the enclosure is about to be called. -/
def Enters (enclosure : Enclosure) (moment : Moment) : Prop :=
  moment.activity = .serving (.call enclosure.thunk []) ∧ moment.pending = enclosure.waiting

/-- The thunk of the enclosure has ended. -/
def Leaves (enclosure : Enclosure) (result : Except Unwind Value) (moment : Moment) : Prop :=
  moment.activity = .returning result ∧ moment.pending = enclosure.waiting

/--
The construct that has waited for the thunk of the enclosure calls what it has to call, and that is
all; or it comes to its end without a call.
-/
inductive Responds (enclosure : Enclosure) (result : Except Unwind Value) (later : Moment) : Prop
  | calling
      {callee : Value}
      {operands : List Value}
      {resume : Except Unwind Value → Script Step} :
      enclosure.response? result = some (callee, operands) →
      later.activity = .serving (.call callee operands) →
      later.pending = .construct (.call callee operands) resume :: enclosure.below →
      EndsAtOnce resume →
      Responds enclosure result later
  | ending :
      enclosure.response? result = none →
      later.pending = enclosure.below →
      (∀ callee operands, later.activity ≠ .serving (.call callee operands)) →
      Responds enclosure result later

/-- What happens from a moment to the next one. -/
inductive Emits (moment later : Moment) : List Event → Prop
  | entering {enclosure : Enclosure} :
      later.Enters enclosure →
      Emits moment later [.entered enclosure]
  | leaving {enclosure : Enclosure} {result : Except Unwind Value} :
      moment.Leaves enclosure result →
      Emits moment later [.left enclosure result]
  | quiet :
      (∀ enclosure, ¬later.Enters enclosure) →
      (∀ enclosure result, ¬moment.Leaves enclosure result) →
      Emits moment later []

/-- The events of a run up to a moment. -/
inductive Traces (host : Host) (limit : Nat) (first : Moment) : List Event → Moment → Prop
  | nil :
      Traces host limit first [] first
  | next {events happening : List Event} {moment later : Moment} :
      Traces host limit first events moment →
      moment.next? host limit = some later →
      Emits moment later happening →
      Traces host limit first (events ++ happening) later

end Moment

variable
  {host : Host}
  {limit : Nat}
  {enclosure : Enclosure}
  {result : Except Unwind Value}
  {pending below : List Pending}
  {around : List Enclosure}

namespace Enclosure

/-- A machine with a handler, on which those who wait show what they do. -/
private def bench : Machine :=
  ⟨default, ⟨[.unspecified], [], 0⟩, 0⟩

/-- What waits tells the enclosure. -/
theorem eq_of_waiting
    {first second : Enclosure}
    (same : first.waiting = second.waiting) :
    first = second := by
  cases first with
  | wind thunk after below =>
      cases second with
      | wind otherThunk otherAfter otherBelow =>
          obtain ⟨sameFrame, rfl⟩ := List.cons.inj same
          obtain ⟨sameRequest, sameNext⟩ := Pending.construct.inj sameFrame
          cases sameRequest
          -- The last procedure shows in what happens to a value.
          have sameCall := congrArg (fun next => (next (.ok .unspecified)).advance bench) sameNext
          cases sameCall
          rfl
      | handling handler otherThunk otherBelow =>
          obtain ⟨sameFrame, _⟩ := List.cons.inj same
          obtain ⟨_, sameNext⟩ := Pending.construct.inj sameFrame
          have sameCall := congrArg (fun next => (next (.ok .unspecified)).advance bench) sameNext
          cases sameCall
  | handling handler thunk below =>
      cases second with
      | wind otherThunk otherAfter otherBelow =>
          obtain ⟨sameFrame, _⟩ := List.cons.inj same
          obtain ⟨_, sameNext⟩ := Pending.construct.inj sameFrame
          have sameCall := congrArg (fun next => (next (.ok .unspecified)).advance bench) sameNext
          cases sameCall
      | handling otherHandler otherThunk otherBelow =>
          obtain ⟨sameFrame, rfl⟩ := List.cons.inj same
          obtain ⟨sameRequest, sameNext⟩ := Pending.construct.inj sameFrame
          cases sameRequest
          -- The handler shows in what happens to a condition.
          have sameCall := congrArg
            (fun next => (next (.error (.fault (.raised .unspecified)))).advance bench)
            sameNext
          cases sameCall
          rfl

/-- What waits for a thunk is a construct that asks again for a condition. -/
theorem not_endsAtOnce
    {request : Request}
    {next : Except Unwind Value → Script Step}
    (same : .construct request next :: below = enclosure.waiting) :
    ¬EndsAtOnce next := by
  intro endsAtOnce
  have stops := endsAtOnce (.error (.fault (.raised .unspecified))) bench
  cases enclosure with
  | wind thunk after outside =>
      obtain ⟨sameFrame, _⟩ := List.cons.inj same
      obtain ⟨_, rfl⟩ := Pending.construct.inj sameFrame
      cases stops
  | handling handler thunk outside =>
      obtain ⟨sameFrame, _⟩ := List.cons.inj same
      obtain ⟨_, rfl⟩ := Pending.construct.inj sameFrame
      cases stops

theorem level_ne_waiting
    (enclosure : Enclosure) :
    .level :: below ≠ enclosure.waiting := by
  cases enclosure <;> simp [waiting]

/-- What waits for a thunk has called it. -/
theorem exists_construct
    (enclosure : Enclosure) :
    ∃ next, enclosure.waiting = .construct (.call enclosure.thunk []) next :: enclosure.below := by
  cases enclosure <;> exact ⟨_, rfl⟩

namespace Around

/-- Where a thunk runs, its enclosure is the innermost one. -/
theorem of_waiting
    (isAround : Around around enclosure.waiting) :
    ∃ outside, around = enclosure :: outside ∧ Around outside enclosure.below := by
  generalize shape : enclosure.waiting = pending at isAround
  cases isAround with
  | nil =>
      obtain ⟨_, construct⟩ := enclosure.exists_construct
      rw [shape] at construct
      cases construct
  | enclosure same isOutside =>
      obtain rfl := eq_of_waiting (shape.trans same)
      exact ⟨_, rfl, isOutside⟩
  | other noEnclosure _ =>
      exact (noEnclosure _ shape.symm).elim

/-- What waits and is no enclosure has the same enclosures around it. -/
theorem of_other
    {waiting : Pending}
    (isAround : Around around (waiting :: below))
    (noEnclosure : ∀ enclosure : Enclosure, waiting :: below ≠ enclosure.waiting) :
    Around around below := by
  cases isAround with
  | enclosure same _ =>
      exact (noEnclosure _ same).elim
  | other _ isAround =>
      exact isAround

end Around

end Enclosure

namespace Moment

/-- Where the thunk of an enclosure has ended, the construct that has waited for it responds. -/
theorem Leaves.responds
    {moment later : Moment}
    (leaves : moment.Leaves enclosure result)
    (next : moment.next? host limit = some later) :
    later.Responds enclosure result := by
  obtain ⟨activity, pending, machine⟩ := moment
  obtain ⟨returns, waits⟩ := leaves
  dsimp only at returns waits
  subst returns waits
  cases enclosure with
  | wind thunk after below =>
      obtain rfl := Option.some.inj next
      refine .calling rfl rfl rfl fun ending machine => ?_
      cases ending with
      | error reason =>
          exact trivial
      | ok _ =>
          cases result <;> exact trivial
  | handling handler thunk below =>
      obtain rfl := Option.some.inj next
      match result with
      | .ok value =>
          exact .ending rfl rfl fun _ _ impossible => nomatch impossible
      | .error (.escape identity value) =>
          exact .ending rfl rfl fun _ _ impossible => nomatch impossible
      | .error (.fault cause) =>
          let popped : Machine := { machine with context := machine.context.popHandler.2 }
          have handles :
              (Special.leaveThunk handler (.error (.fault cause))).advance machine =
                (Special.handle handler cause).advance popped :=
            rfl
          rw [handles]
          rcases Special.advance_handle handler cause popped with
            ⟨unhandled, passes⟩ | ⟨condition, resume, handled, asks, endsAtOnce⟩
          · refine .ending ?_ ?_ ?_
            · simp [Enclosure.response?, unhandled]
            · rw [passes]
              rfl
            · intro callee operands
              rw [passes]
              exact fun impossible => nomatch impossible
          · have response :
                (Enclosure.handling handler thunk below).response? (.error (.fault cause)) =
                  some (handler, [condition]) := by
              simp [Enclosure.response?, handled]
            refine .calling response ?_ ?_ endsAtOnce
            · rw [asks]
              rfl
            · rw [asks]
              rfl

/-- No step both leaves an enclosure and enters one. -/
theorem Leaves.not_enters
    {moment later : Moment}
    (leaves : moment.Leaves enclosure result)
    (next : moment.next? host limit = some later)
    (other : Enclosure) :
    ¬later.Enters other := by
  intro enters
  cases leaves.responds next with
  | calling _ _ waits endsAtOnce =>
      exact Enclosure.not_endsAtOnce (waits.symm.trans enters.2) endsAtOnce
  | ending _ _ noCall =>
      exact noCall _ _ enters.1

namespace Emits

theorem exists_of_moments
    (moment later : Moment) :
    ∃ happening, Emits moment later happening := by
  by_cases enters : ∃ enclosure, later.Enters enclosure
  · obtain ⟨_, enters⟩ := enters
    exact ⟨_, .entering enters⟩
  · by_cases leaves : ∃ enclosure result, moment.Leaves enclosure result
    · obtain ⟨_, _, leaves⟩ := leaves
      exact ⟨_, .leaving leaves⟩
    · refine ⟨[], .quiet ?_ ?_⟩
      · exact fun enclosure isEntered => enters ⟨enclosure, isEntered⟩
      · exact fun enclosure result isLeft => leaves ⟨enclosure, result, isLeft⟩

/-- A step tells what happens in it. -/
theorem unique
    {moment later : Moment}
    {first second : List Event}
    (next : moment.next? host limit = some later)
    (emitsFirst : Emits moment later first)
    (emitsSecond : Emits moment later second) :
    first = second := by
  cases emitsFirst with
  | entering enters =>
      cases emitsSecond with
      | entering others =>
          rw [Enclosure.eq_of_waiting (enters.2.symm.trans others.2)]
      | leaving leaves =>
          exact (leaves.not_enters next _ enters).elim
      | quiet noEnters _ =>
          exact (noEnters _ enters).elim
  | leaving leaves =>
      cases emitsSecond with
      | entering enters =>
          exact (leaves.not_enters next _ enters).elim
      | leaving others =>
          rw [Enclosure.eq_of_waiting (leaves.2.symm.trans others.2),
            Activity.returning.inj (leaves.1.symm.trans others.1)]
      | quiet _ noLeaves =>
          exact (noLeaves _ _ leaves).elim
  | quiet noEnters noLeaves =>
      cases emitsSecond with
      | entering enters =>
          exact (noEnters _ enters).elim
      | leaving leaves =>
          exact (noLeaves _ _ leaves).elim
      | quiet _ _ =>
          rfl

end Emits

/-- The events of a run go on as the run goes on. -/
theorem Traces.extend
    {first moment later : Moment}
    {events : List Event}
    (traces : Traces host limit first events moment)
    (reaches : Reaches host limit moment later) :
    ∃ more, Traces host limit first (events ++ more) later := by
  induction reaches with
  | refl =>
      exact ⟨[], by simpa using traces⟩
  | @tail between later _ next inductionHypothesis =>
      obtain ⟨more, tracesBetween⟩ := inductionHypothesis
      obtain ⟨happening, emits⟩ := Emits.exists_of_moments between later
      refine ⟨more ++ happening, ?_⟩
      rw [← List.append_assoc]
      exact .next tracesBetween next emits

/-- Every run has its events. -/
theorem Reaches.exists_traces
    {first moment : Moment}
    (reaches : Reaches host limit first moment) :
    ∃ events, Traces host limit first events moment :=
  Traces.nil.extend reaches

/-! What happens in a step changes what is around. -/

/-- What has happened turns what was around into what is around. -/
def Turns (happening : List Event) (before after : List Enclosure) : Prop :=
  ∀ events, Event.Unfinished events before → Event.Unfinished (events ++ happening) after

/-- A script that comes to a request enters an enclosure if it waits as one. -/
private theorem around_ofProgress
    (isAround : Enclosure.Around around pending)
    (progress : Progress Step) :
    (∃ enclosure,
      (ofProgress pending progress).Enters enclosure ∧
        Enclosure.Around (enclosure :: around) (ofProgress pending progress).pending) ∨
      (∀ enclosure, ¬(ofProgress pending progress).Enters enclosure) ∧
        Enclosure.Around around (ofProgress pending progress).pending := by
  match progress with
  | .ended (.ok step) machine =>
      exact .inr ⟨fun _ impossible => (nomatch impossible.1), isAround⟩
  | .ended (.error reason) machine =>
      exact .inr ⟨fun _ impossible => (nomatch impossible.1), isAround⟩
  | .asked request next machine =>
      by_cases isEnclosure :
          ∃ enclosure : Enclosure, .construct request next :: pending = enclosure.waiting
      · obtain ⟨enclosure, same⟩ := isEnclosure
        obtain ⟨_, shape⟩ := enclosure.exists_construct
        obtain ⟨sameFrame, rfl⟩ := List.cons.inj (same.trans shape)
        obtain ⟨sameRequest, _⟩ := Pending.construct.inj sameFrame
        exact .inl ⟨enclosure, ⟨congrArg Activity.serving sameRequest, same⟩,
          .enclosure same isAround⟩
      · have noEnclosure : ∀ enclosure : Enclosure,
            .construct request next :: pending ≠ enclosure.waiting :=
          fun enclosure same => isEnclosure ⟨enclosure, same⟩
        exact .inr ⟨fun enclosure enters => noEnclosure enclosure enters.2,
          .other noEnclosure isAround⟩

/-- Where no enclosure is left, a script that has gone on enters at most one. -/
private theorem emits_ofProgress
    {moment : Moment}
    (noLeaves : ∀ enclosure result, ¬moment.Leaves enclosure result)
    (isAround : Enclosure.Around around pending)
    (progress : Progress Step) :
    ∃ happening after,
      Emits moment (ofProgress pending progress) happening ∧
        Enclosure.Around after (ofProgress pending progress).pending ∧
        Turns happening around after := by
  rcases around_ofProgress isAround progress with
    ⟨enclosure, enters, isAfter⟩ | ⟨noEnters, isAfter⟩
  · exact ⟨_, _, .entering enters, isAfter, fun _ unfinished => unfinished.entering enclosure⟩
  · refine ⟨[], around, .quiet noEnters noLeaves, isAfter, fun _ unfinished => ?_⟩
    simpa using unfinished

/-- Opening a level, or being refused one, enters and leaves nothing. -/
private theorem emits_ofOpening
    {moment : Moment}
    (noLeaves : ∀ enclosure result, ¬moment.Leaves enclosure result)
    (isAround : Enclosure.Around around pending)
    (step : Step)
    (machine : Machine) :
    Emits moment (ofOpening limit step pending machine) [] ∧
      Enclosure.Around around (ofOpening limit step pending machine).pending := by
  unfold ofOpening
  split
  · exact ⟨.quiet (fun _ impossible => nomatch impossible.1) noLeaves, isAround⟩
  · exact ⟨.quiet (fun _ impossible => nomatch impossible.1) noLeaves,
      .other Enclosure.level_ne_waiting isAround⟩

/-- Nothing that happens leaves what is around as it is. -/
private theorem turns_nil
    (around : List Enclosure) :
    Turns [] around around := by
  intro events unfinished
  simpa using unfinished

/-- Where an enclosure is left, what is around is what was around it. -/
private theorem Leaves.emits
    {moment later : Moment}
    (leaves : moment.Leaves enclosure result)
    (isAround : Enclosure.Around around moment.pending)
    (next : moment.next? host limit = some later) :
    ∃ after,
      Emits moment later [.left enclosure result] ∧
        Enclosure.Around after later.pending ∧
        Turns [.left enclosure result] around after := by
  have isAroundWaiting := isAround
  rw [leaves.2] at isAroundWaiting
  obtain ⟨outside, rfl, isOutside⟩ := isAroundWaiting.of_waiting
  refine ⟨outside, .leaving leaves, ?_, fun events unfinished => unfinished.leaving result⟩
  cases leaves.responds next with
  | calling _ _ waits endsAtOnce =>
      rw [waits]
      exact .other (fun other same => other.not_endsAtOnce same endsAtOnce) isOutside
  | ending _ waits _ =>
      rw [waits]
      exact isOutside

/--
Every step enters an enclosure, leaves the innermost one, or leaves what is around as it is.  The
cases are those of a step.
-/
theorem exists_emits
    {moment later : Moment}
    (isAround : Enclosure.Around around moment.pending)
    (next : moment.next? host limit = some later) :
    ∃ happening after,
      Emits moment later happening ∧
        Enclosure.Around after later.pending ∧
        Turns happening around after := by
  by_cases leaves : ∃ enclosure result, moment.Leaves enclosure result
  · obtain ⟨enclosure, result, leaves⟩ := leaves
    obtain ⟨after, emits, isAfter, turns⟩ := leaves.emits isAround next
    exact ⟨_, after, emits, isAfter, turns⟩
  · have noLeaves : ∀ enclosure result, ¬moment.Leaves enclosure result :=
      fun enclosure result isLeft => leaves ⟨enclosure, result, isLeft⟩
    cases steps_of_next? next with
    | evaluating =>
        obtain ⟨emits, isAfter⟩ := emits_ofOpening noLeaves isAround _ _
        exact ⟨[], around, emits, isAfter, turns_nil around⟩
    | calling =>
        obtain ⟨emits, isAfter⟩ := emits_ofOpening noLeaves isAround _ _
        exact ⟨[], around, emits, isAfter, turns_nil around⟩
    | finishing _ | reaching | waiting =>
        exact ⟨[], around, .quiet (fun _ impossible => nomatch impossible.1) noLeaves,
          isAround, turns_nil around⟩
    | beginning _ =>
        exact emits_ofProgress noLeaves isAround _
    | closing =>
        have isAroundBelow := isAround.of_other Enclosure.level_ne_waiting
        exact ⟨[], around, .quiet (fun _ impossible => nomatch impossible.1) noLeaves,
          isAroundBelow, turns_nil around⟩
    | @resuming result request resume pending machine =>
        have isAroundBelow : Enclosure.Around around pending := by
          refine isAround.of_other fun enclosure same => ?_
          exact noLeaves enclosure result ⟨rfl, same⟩
        exact emits_ofProgress noLeaves isAroundBelow _

/--
The events of a run nest: from what was around its beginning they make what is around, and so they
are balanced when nothing was and nothing is.
-/
theorem Traces.unfinished
    {first moment : Moment}
    {events : List Event}
    (traces : Traces host limit first events moment)
    (bare : first.pending = []) :
    ∃ around,
      Event.Unfinished events around ∧
        Enclosure.Around around moment.pending := by
  induction traces with
  | nil =>
      rw [bare]
      exact ⟨[], .bare .nil, .nil⟩
  | @next events happening between later _ next emits inductionHypothesis =>
      obtain ⟨around, unfinished, isAround⟩ := inductionHypothesis
      obtain ⟨other, after, emitsOther, isAfter, turns⟩ := exists_emits isAround next
      obtain rfl := emits.unique next emitsOther
      exact ⟨after, turns events unfinished, isAfter⟩

/-- The events of a run that is over are balanced. -/
theorem Traces.balanced
    {first moment : Moment}
    {events : List Event}
    (traces : Traces host limit first events moment)
    (bare : first.pending = [])
    (isOver : moment.pending = []) :
    Event.Balanced events := by
  obtain ⟨around, unfinished, isAround⟩ := traces.unfinished bare
  rw [isOver] at isAround
  cases isAround with
  | nil =>
      exact unfinished.balanced
  | @enclosure enclosure _ _ same _ =>
      obtain ⟨_, shape⟩ := enclosure.exists_construct
      cases same.trans shape

end Moment

end SmallScheme
