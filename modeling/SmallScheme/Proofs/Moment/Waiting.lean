import SmallScheme.Proofs.Moment.Unwinding

namespace SmallScheme

/-!
# What waits, and since when

The constructs that change what surrounds the inside can be told from all others by what they do
when they go on.  A construct that waits has asked for what it waits for at an earlier moment, and
an escape whose receiver waits was new at that moment.
-/

variable
  {catches : Prop}
  {base outer inner : Surroundings}
  {host : Host}
  {limit : Nat}

/-! What a construct encloses, told from what it does when a value is returned to it. -/

namespace Pending.Encloses

/-- There is a machine with given surroundings on which all escapes have their numbers. -/
private theorem exists_machine
    (inner : Surroundings) :
    ∃ machine : Machine, machine.surroundings = inner ∧ machine.context.Numbered := by
  obtain ⟨handlers, escapes, depth⟩ := inner
  have bounded : ∃ lastEscape, ∀ identity ∈ escapes, identity ≤ lastEscape := by
    induction escapes with
    | nil =>
        exact ⟨0, fun _ member => nomatch member⟩
    | cons first rest inductionHypothesis =>
        obtain ⟨lastEscape, bound⟩ := inductionHypothesis
        refine ⟨max first lastEscape, fun identity member => ?_⟩
        rcases List.mem_cons.mp member with isFirst | inRest
        · omega
        · have := bound identity inRest
          omega
  obtain ⟨lastEscape, bound⟩ := bounded
  exact ⟨⟨default, ⟨handlers, escapes, lastEscape⟩, depth⟩, rfl, bound⟩

/-- If a construct ends at once with a value, it leaves what surrounds it. -/
private theorem outer_of_ending
    {request : Request}
    {next : Except Unwind Value → Script Step}
    (leave : Context → Context)
    (encloses : (Pending.construct request next).Encloses catches outer inner)
    (ends :
      ∀ machine : Machine,
        (next (.ok .unspecified)).advance machine =
          .ended (.ok (.value .unspecified)) { machine with context := leave machine.context }) :
    ∃ machine : Machine,
      machine.surroundings = inner ∧
        outer = Machine.surroundings { machine with context := leave machine.context } := by
  obtain ⟨machine, here, numbered⟩ := exists_machine inner
  subst here
  have settles := Progress.Settles.of_resuming encloses numbered
    (fun _ => Progress.Settles.admits_ok _ Value.unspecified)
  rw [ends machine] at settles
  cases settles with
  | ended same _ _ =>
      exact ⟨machine, rfl, same.symm⟩

private theorem outer_of_receiver
    {callee : Value}
    {identity : Nat}
    (encloses : (Pending.receiver callee identity).Encloses catches outer inner) :
    outer = { inner with escapes := inner.escapes.filter (· ≠ identity) } := by
  obtain ⟨machine, rfl, same⟩ := encloses.outer_of_ending
    (fun context => (context.closeEscape identity).2)
    (fun machine => Progress.Settles.advance_leaveReceiver identity (.ok .unspecified) machine)
  exact same

private theorem outer_of_thunk
    {handler callee : Value}
    (encloses : (Pending.thunk handler callee).Encloses catches outer inner) :
    outer = { inner with handlers := inner.handlers.tail } := by
  obtain ⟨machine, rfl, same⟩ := encloses.outer_of_ending
    (fun context => context.popHandler.2)
    (fun machine => rfl)
  rw [same]
  obtain ⟨store, ⟨handlers, escapes, lastEscape⟩, depth⟩ := machine
  cases handlers <;> rfl

/-- A handler that runs for a value is installed around its run. -/
theorem of_offered
    {handler value : Value}
    (encloses : (Pending.offered handler value).Encloses catches outer inner) :
    outer = { inner with handlers := handler :: inner.handlers } := by
  obtain ⟨machine, rfl, same⟩ := encloses.outer_of_ending
    (fun context => (context.pushHandler handler).2)
    (fun machine => rfl)
  exact same

/-- The receiver of an escape encloses its run with the escape, which is not running outside. -/
theorem of_receiver
    {callee : Value}
    {identity : Nat}
    (encloses : (Pending.receiver callee identity).Encloses catches outer inner) :
    inner = { outer with escapes := identity :: outer.escapes } ∧ identity ∉ outer.escapes := by
  -- A receiver takes its escape off, so it is nothing that encloses in any surroundings alike.
  have noConstant :
      ¬∀ outer, (Pending.receiver callee identity).Encloses catches outer outer := by
    intro constant
    have same := outer_of_receiver (constant ⟨[], [identity], 0⟩)
    simp at same
  generalize shape : Pending.receiver callee identity = waiting at encloses
  cases encloses with
  | level =>
      cases shape
  | ordinary _ nested resumes =>
      exact (noConstant fun outer => shape ▸ .ordinary outer nested resumes).elim
  | receiver fresh =>
      obtain ⟨sameRequest, _⟩ := Pending.construct.inj shape
      cases sameRequest
      exact ⟨rfl, fresh⟩
  | thunk =>
      obtain ⟨sameRequest, _⟩ := Pending.construct.inj shape
      cases sameRequest
  | @handler handler value _ =>
      have encloses :
          (Pending.receiver callee identity).Encloses catches ⟨[handler], [], 0⟩ ⟨[], [], 0⟩ :=
        shape ▸ .handler ⟨[], [], 0⟩
      have same := congrArg Surroundings.handlers (outer_of_receiver encloses)
      cases same
  | middle =>
      obtain ⟨sameRequest, _⟩ := Pending.construct.inj shape
      cases sameRequest
  | last =>
      obtain ⟨sameRequest, _⟩ := Pending.construct.inj shape
      cases sameRequest
  | rebound _ nested resumes =>
      exact (noConstant fun outer => shape ▸ .rebound outer nested resumes).elim
  | finishing =>
      obtain ⟨sameRequest, _⟩ := Pending.construct.inj shape
      cases sameRequest

/-- What is called with one operand and changes the handlers is a handler that runs for a value. -/
theorem offered_of_changed
    {callee operand : Value}
    {next : Except Unwind Value → Script Step}
    (encloses : (Pending.construct (.call callee [operand]) next).Encloses catches outer inner)
    (changed : outer.handlers ≠ inner.handlers) :
    Pending.construct (.call callee [operand]) next = .offered callee operand := by
  cases encloses with
  | handler =>
      rfl
  | _ =>
      exact (changed rfl).elim

/-- The thunk of a handler runs with the handler installed. -/
theorem of_thunk
    {handler callee : Value}
    (encloses : (Pending.thunk handler callee).Encloses catches outer inner) :
    inner = { outer with handlers := handler :: outer.handlers } := by
  have noConstant :
      ¬∀ outer, (Pending.thunk handler callee).Encloses catches outer outer := by
    intro constant
    have same := outer_of_thunk (constant ⟨[handler], [], 0⟩)
    simp at same
  generalize shape : Pending.thunk handler callee = waiting at encloses
  cases encloses with
  | level =>
      cases shape
  | ordinary _ nested resumes =>
      exact (noConstant fun outer => shape ▸ .ordinary outer nested resumes).elim
  | receiver =>
      obtain ⟨sameRequest, _⟩ := Pending.construct.inj shape
      cases sameRequest
  | @thunk other _ =>
      obtain ⟨_, sameNext⟩ := Pending.construct.inj shape
      -- The handler shows in what happens to a condition.
      have sameCall := congrArg
        (fun next => (next (.error (.fault (.raised .unspecified)))).advance
          ⟨default, ⟨[], [], 0⟩, 0⟩)
        sameNext
      cases sameCall
      rfl
  | handler =>
      obtain ⟨sameRequest, _⟩ := Pending.construct.inj shape
      cases sameRequest
  | middle =>
      exact (noConstant fun outer => shape ▸ .middle outer).elim
  | @last after result _ legitimate =>
      have encloses :
          (Pending.thunk handler callee).Encloses catches
            { outer with handlers := [handler] } { outer with handlers := [handler] } :=
        shape ▸ .last legitimate
      have same := congrArg Surroundings.handlers (outer_of_thunk encloses)
      cases same
  | rebound _ nested resumes =>
      exact (noConstant fun outer => shape ▸ .rebound outer nested resumes).elim
  | finishing =>
      obtain ⟨sameRequest, _⟩ := Pending.construct.inj shape
      cases sameRequest

end Pending.Encloses

/-- Between two moments of a life a construct has asked for what it waits for at the later one. -/
def Moment.HasAsked
    (catches : Prop)
    (request : Request)
    (resume : Except Unwind Value → Script Step)
    (below : List Pending)
    (first later : Moment) : Prop :=
  ∃ before asking,
    Precedes catches first before ∧
      Follows catches before asking ∧
      Precedes catches asking later ∧
      asking.activity = .serving request ∧
      asking.pending = .construct request resume :: below

namespace Moment

/-- When a construct returns at once, the surroundings after it are those that it has. -/
theorem Orderly.encloses_of_returning
    {request : Request}
    {resume : Except Unwind Value → Script Step}
    {rest : List Pending}
    {result ending : Except Unwind Value}
    {machine : Machine}
    {later : Moment}
    (orderly :
      (⟨.returning result, .construct request resume :: rest, machine⟩ : Moment).Orderly
        catches base)
    (next :
      (⟨.returning result, .construct request resume :: rest, machine⟩ : Moment).next? host limit =
        some later)
    (returns : later.activity = .returning ending) :
    (Pending.construct request resume).Encloses catches
      later.machine.surroundings machine.surroundings := by
  have surrounded := orderly.surrounded
  cases surrounded with
  | within encloses _ =>
      have settles := Progress.Settles.of_resuming encloses orderly.numbered
        (fun strict => orderly.admits strict result rfl)
      obtain rfl := Option.some.inj next
      generalize (resume result).advance machine = progress at settles returns
      cases settles with
      | ended same =>
          rw [ofProgress_ended_machine, same]
          exact encloses
      | asked =>
          cases returns

/-! What waits at a moment has waited before or has just asked for something. -/

/-- One moment adds no more than one level or one construct to what waits. -/
theorem next?_pending
    {moment later : Moment}
    (next : moment.next? host limit = some later) :
    later.pending <:+ moment.pending ∨
      later.pending = .level :: moment.pending ∨
      ∃ request resume rest,
        later.activity = .serving request ∧
          later.pending = .construct request resume :: rest ∧
          rest <:+ moment.pending := by
  have opening
      (step : Step)
      (pending : List Pending)
      (machine : Machine) :
      (ofOpening limit step pending machine).pending <:+ pending ∨
        (ofOpening limit step pending machine).pending = .level :: pending := by
    unfold ofOpening
    split
    · exact .inl List.suffix_rfl
    · exact .inr rfl
  have progressing
      {rest pending : List Pending}
      (isLeft : rest <:+ pending)
      (progress : Progress Step) :
      (ofProgress rest progress).pending <:+ pending ∨
        ∃ request resume kept,
          (ofProgress rest progress).activity = .serving request ∧
            (ofProgress rest progress).pending = .construct request resume :: kept ∧
            kept <:+ pending := by
    cases progress with
    | ended result machine =>
        cases result <;> exact .inl isLeft
    | asked request resume machine =>
        exact .inr ⟨request, resume, rest, rfl, rfl, isLeft⟩
  cases steps_of_next? next with
  | evaluating =>
      exact (opening _ _ _).imp_right .inl
  | calling =>
      exact (opening _ _ _).imp_right .inl
  | finishing _ | reaching | waiting =>
      exact .inl List.suffix_rfl
  | beginning _ =>
      exact (progressing List.suffix_rfl _).imp_right .inr
  | closing =>
      exact .inl (List.suffix_cons _ _)
  | resuming =>
      exact (progressing (List.suffix_cons _ _) _).imp_right .inr

/-- What waits has waited since the moment at which it asked for what it waits for. -/
theorem Precedes.asked
    {first later : Moment}
    {request : Request}
    {resume : Except Unwind Value → Script Step}
    {below : List Pending}
    (precedes : Precedes catches first later)
    (waits : .construct request resume :: below <:+ later.pending) :
    .construct request resume :: below <:+ first.pending ∨
      first.HasAsked catches request resume below later := by
  induction precedes with
  | refl =>
      exact .inl waits
  | @tail between later toBetween follows inductionHypothesis =>
      have extend
          (waitsBetween : .construct request resume :: below <:+ between.pending) :
          .construct request resume :: below <:+ first.pending ∨
            first.HasAsked catches request resume below later := by
        rcases inductionHypothesis waitsBetween with
          inFirst | ⟨before, asking, toBefore, asks, fromAsking, serves, waitsAsking⟩
        · exact .inl inFirst
        · exact .inr ⟨before, asking, toBefore, asks, fromAsking.tail follows, serves, waitsAsking⟩
      cases follows with
      | again nested rests =>
          have empty := List.suffix_nil.mp waits
          cases empty
      | within restrained next =>
          rcases next?_pending next with
            isLeft | opens | ⟨newRequest, newResume, rest, serves, asks, isLeft⟩
          · exact extend (waits.trans isLeft)
          · rw [opens] at waits
            rcases List.suffix_cons_iff.mp waits with isHead | isLeft
            · cases isHead
            · exact extend isLeft
          · rw [asks] at waits
            rcases List.suffix_cons_iff.mp waits with isHead | inRest
            · obtain ⟨sameHead, sameRest⟩ := List.cons.inj isHead
              obtain ⟨sameRequest, sameResume⟩ := Pending.construct.inj sameHead
              subst sameRequest sameResume sameRest
              exact .inr ⟨between, later, toBetween, .within restrained next, .refl, serves, asks⟩
            · exact extend (inRest.trans isLeft)

/-- When a receiver is about to be called, its escape has just been made. -/
theorem Follows.new_receiver
    {before asking : Moment}
    {callee : Value}
    {identity : Nat}
    {below : List Pending}
    (follows : Follows catches before asking)
    (orderly : before.Orderly catches base)
    (serves : asking.activity = .serving (.call callee [.escape identity]))
    (waits : asking.pending = .receiver callee identity :: below) :
    before.machine.context.lastEscape < identity := by
  cases follows with
  | again =>
      cases waits
  | within restrained next =>
      cases orderly.moves restrained next with
      | opening step =>
          unfold ofOpening at serves
          split at serves <;> cases serves
      | finishing value =>
          cases serves
      | waiting writes =>
          cases writes.symm.trans serves
      | closing =>
          cases serves
      | settling surrounded included _ settles =>
          cases settles with
          | @ended result machine _ _ _ =>
              cases result <;> cases serves
          | @asked request resume machine encloses later fresh =>
              obtain ⟨sameHead, sameRest⟩ := List.cons.inj waits
              rw [sameHead] at encloses
              obtain ⟨enclosed, isNew⟩ := encloses.of_receiver
              have running : machine.context.escapes = identity :: _ :=
                congrArg Surroundings.escapes enclosed
              have member : identity ∈ machine.context.escapes := by
                rw [running]
                exact List.mem_cons_self
              rcases fresh identity member with inOuter | ⟨isLater, _⟩
              · exact (isNew inOuter).elim
              · exact isLater

end Moment

end SmallScheme
