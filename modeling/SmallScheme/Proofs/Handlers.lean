import SmallScheme.Proofs.Moment.Waiting

namespace SmallScheme

/-!
# Which handler a condition is delivered to

Two mechanisms find a handler.  A value that is offered goes to the innermost installed handler,
and a handler is not installed while it runs for an offered value.  A condition that unwinds goes to
the handler of the innermost form whose thunk waits, and the thunk of a handler's own form waits
while the handler runs for an offered value.  So the two do not agree on what a handler raises.
-/

namespace Pending

/-- The thunk of a handler is running. -/
def IsThunk (waiting : Pending) : Prop :=
  ∃ handler callee, waiting = .thunk handler callee

/-- A handler is running for a value that was offered to it. -/
def IsOffered (waiting : Pending) : Prop :=
  ∃ handler value, waiting = .offered handler value

/-- Every thunk of a handler in the list waits for a run of that handler, and the runs nest. -/
inductive Balanced : List Pending → Prop
  | nil :
      Balanced []
  | other {waiting : Pending} {rest : List Pending} :
      ¬waiting.IsThunk →
      ¬waiting.IsOffered →
      Balanced rest →
      Balanced (waiting :: rest)
  | pair {handler value callee : Value} {inside rest : List Pending} :
      Balanced inside →
      Balanced rest →
      Balanced (.offered handler value :: (inside ++ .thunk handler callee :: rest))

end Pending

variable
  {catches : Prop}
  {base outer inner : Surroundings}
  {host : Host}
  {limit : Nat}
  {pending : List Pending}
  {handler : Value}
  {others : List Value}

/-- What is no thunk and no run of a handler leaves the handlers as they are. -/
theorem Pending.Encloses.handlers_eq
    {waiting : Pending}
    (encloses : waiting.Encloses catches outer inner)
    (noThunk : ¬waiting.IsThunk)
    (notOffered : ¬waiting.IsOffered) :
    outer.handlers = inner.handlers := by
  cases encloses with
  | thunk =>
      exact (noThunk ⟨_, _, rfl⟩).elim
  | handler =>
      exact (notOffered ⟨_, _, rfl⟩).elim
  | _ =>
      rfl

/--
The thunk of the form that installed the innermost handler waits behind runs of handlers that have
been installed further in.
-/
theorem Surrounded.exists_installer
    (surrounded : Surrounded catches base pending inner)
    (noneOutside : base.handlers = [])
    (installed : inner.handlers = handler :: others) :
    ∃ between callee below outer,
      pending = between ++ .thunk handler callee :: below ∧
        Pending.Balanced between ∧
        Surrounded catches base below outer ∧
        outer.handlers = others := by
  -- The form of a handler that is running further in is found first, then what is behind that form.
  induction size : pending.length using Nat.strongRecOn generalizing pending inner handler
    others with
  | ind size inductionHypothesis =>
      cases surrounded with
      | bare =>
          rw [noneOutside] at installed
          cases installed
      | @within waiting rest outer _ encloses surrounded =>
          subst size
          by_cases isThunk : waiting.IsThunk
          · obtain ⟨found, callee, rfl⟩ := isThunk
            have enclosed := congrArg Surroundings.handlers encloses.of_thunk
            rw [installed] at enclosed
            obtain ⟨rfl, rfl⟩ := List.cons.inj enclosed
            exact ⟨[], callee, rest, outer, rfl, .nil, surrounded, rfl⟩
          · by_cases isOffered : waiting.IsOffered
            · obtain ⟨running, value, rfl⟩ := isOffered
              have outside : outer.handlers = running :: handler :: others := by
                rw [encloses.of_offered, ← installed]
              obtain ⟨inside, callee, below, _, rfl, balancedInside, surroundedBelow,
                  handlersBelow⟩ :=
                inductionHypothesis _ (Nat.lt_succ_self _) surrounded outside rfl
              have shorter :
                  below.length < (Pending.offered running value ::
                    (inside ++ .thunk running callee :: below)).length := by
                simp only [List.length_cons, List.length_append]
                omega
              obtain ⟨between, installer, last, outermost, rfl, balanced, surroundedLast,
                  handlersLast⟩ :=
                inductionHypothesis _ shorter surroundedBelow handlersBelow rfl
              refine ⟨.offered running value :: (inside ++ .thunk running callee :: between),
                installer, last, outermost, by simp, .pair balancedInside balanced,
                surroundedLast, handlersLast⟩
            · have outside : outer.handlers = handler :: others :=
                (encloses.handlers_eq isThunk isOffered).trans installed
              obtain ⟨between, callee, below, outermost, rfl, balanced, surroundedBelow,
                  handlersBelow⟩ :=
                inductionHypothesis _ (Nat.lt_succ_self _) surrounded outside rfl
              exact ⟨waiting :: between, callee, below, outermost, rfl,
                .other isThunk isOffered balanced, surroundedBelow, handlersBelow⟩

/-- The innermost thunk in a list is a given one exactly if there is no thunk before that one. -/
theorem Pending.exists_innermost_thunk
    {handler callee : Value}
    (between below : List Pending) :
    ∃ front found inside back,
      between ++ .thunk handler callee :: below = front ++ .thunk found inside :: back ∧
        (∀ waiting ∈ front, ¬waiting.IsThunk) ∧
        (Pending.thunk found inside :: back = .thunk handler callee :: below ↔
          ∀ waiting ∈ between, ¬waiting.IsThunk) := by
  induction between with
  | nil =>
      have none : ∀ waiting ∈ [], ¬Pending.IsThunk waiting :=
        fun _ member => nomatch member
      exact ⟨[], handler, callee, below, rfl, none, fun _ => none, fun _ => rfl⟩
  | cons first rest inductionHypothesis =>
      by_cases isThunk : first.IsThunk
      · obtain ⟨found, inside, rfl⟩ := isThunk
        refine ⟨[], found, inside, rest ++ .thunk handler callee :: below, rfl,
          (fun _ member => nomatch member), ?_⟩
        constructor
        · intro same
          have lengths := congrArg List.length same
          simp only [List.length_cons, List.length_append] at lengths
          omega
        · intro noThunk
          exact (noThunk _ List.mem_cons_self ⟨found, inside, rfl⟩).elim
      · obtain ⟨front, found, inside, back, shape, noThunk, same⟩ := inductionHypothesis
        refine ⟨first :: front, found, inside, back, congrArg (first :: ·) shape, ?_, ?_⟩
        · intro waiting member
          rcases List.mem_cons.mp member with isFirst | inFront
          · exact isFirst ▸ isThunk
          · exact noThunk waiting inFront
        · rw [same]
          constructor
          · intro noThunkRest waiting member
            rcases List.mem_cons.mp member with isFirst | inRest
            · exact isFirst ▸ isThunk
            · exact noThunkRest waiting inRest
          · intro noThunkAll waiting member
            exact noThunkAll waiting (List.mem_cons_of_mem _ member)

/-- What neither is a thunk nor runs a handler keeps the handlers of what surrounds it. -/
theorem Surrounded.of_append
    {above rest : List Pending}
    (surrounded : Surrounded catches base (above ++ rest) inner)
    (own : ∀ waiting ∈ above, ¬waiting.IsThunk ∧ ¬waiting.IsOffered) :
    ∃ middle, Surrounded catches base rest middle ∧ middle.handlers = inner.handlers := by
  induction above generalizing inner with
  | nil =>
      exact ⟨inner, surrounded, rfl⟩
  | cons waiting above inductionHypothesis =>
      cases surrounded with
      | within encloses surrounded =>
          obtain ⟨noThunk, notOffered⟩ := own waiting List.mem_cons_self
          obtain ⟨middle, surroundedRest, same⟩ := inductionHypothesis surrounded
            fun waiting member => own waiting (List.mem_cons_of_mem _ member)
          exact ⟨middle, surroundedRest, same.trans (encloses.handlers_eq noThunk notOffered)⟩

namespace Moment

/--
While a handler runs for an offered value, the installed handlers are those outside the form that
installed it.
-/
theorem Orderly.handlers_while_running
    {moment : Moment}
    {above rest : List Pending}
    {value : Value}
    (orderly : moment.Orderly catches ⟨[], [], 0⟩)
    (runs : moment.pending = above ++ .offered handler value :: rest)
    (own : ∀ waiting ∈ above, ¬waiting.IsThunk ∧ ¬waiting.IsOffered) :
    ∃ between callee below outer,
      rest = between ++ .thunk handler callee :: below ∧
        Pending.Balanced between ∧
        Surrounded catches ⟨[], [], 0⟩ below outer ∧
        moment.machine.context.handlers = outer.handlers := by
  have surrounded := orderly.surrounded
  rw [runs] at surrounded
  obtain ⟨middle, surroundedRun, same⟩ := surrounded.of_append own
  cases surroundedRun with
  | @within _ _ outside _ encloses surroundedRest =>
      have installed : outside.handlers = handler :: middle.handlers := by
        rw [encloses.of_offered]
      obtain ⟨between, callee, below, outer, shape, balanced, surroundedBelow, outerHandlers⟩ :=
        surroundedRest.exists_installer rfl installed
      exact ⟨between, callee, below, outer, shape, balanced, surroundedBelow,
        same.symm.trans outerHandlers.symm⟩

/-- The thunk of a handler to which a condition is returned has the handler called for it. -/
theorem next?_thunk
    {cause : Fault}
    {condition callee : Value}
    {below : List Pending}
    (handled : cause.handled? = some condition)
    (machine : Machine) :
    ∃ resume,
      (⟨.returning (.error (.fault cause)), .thunk handler callee :: below, machine⟩ :
          Moment).next? host limit =
        some
          ⟨.serving (.call handler [condition]),
            .construct (.call handler [condition]) resume :: below,
            { machine with context := machine.context.popHandler.2 }⟩ := by
  let popped : Machine := { machine with context := machine.context.popHandler.2 }
  rcases Special.advance_handle handler cause popped with
    ⟨unhandled, _⟩ | ⟨found, resume, isHandled, asks, _⟩
  · cases handled.symm.trans unhandled
  · obtain rfl := Option.some.inj (handled.symm.trans isHandled)
    refine ⟨resume, ?_⟩
    change some (ofProgress below ((Special.handle handler cause).advance popped)) = _
    rw [asks]
    rfl

/-- A condition that unwinds below a thunk is on its way to the thunk. -/
theorem crossing_to_thunk
    {moment : Moment}
    {front back : List Pending}
    {cause : Fault}
    {callee : Value}
    (unwinds : moment.activity = .returning (.error (.fault cause)))
    (waits : moment.pending = front ++ .thunk handler callee :: back)
    (noThunk : ∀ waiting ∈ front, ¬waiting.IsThunk) :
    moment.Crossing (.fault cause) (.thunk handler callee :: back) := by
  obtain ⟨activity, pending, machine⟩ := moment
  dsimp only at unwinds waits
  subst unwinds waits
  refine .leaving fun waiting member caught => noThunk waiting member ?_
  cases caught
  exact ⟨_, _, rfl⟩

end Moment

/--
While a handler runs for a value that was offered to it, what is offered goes to the next outer
handler.  A condition that unwinds from its run does not: it is delivered to the handler of the
innermost form whose thunk waits, unless the last procedure of a wind ends with a reason of its own.
This is the form that installed the running handler exactly if no other thunk waits in between.
-/
theorem conditions_of_running_handler
    {settings : Settings}
    (restrained : settings.host.Restrained False)
    {moment : Moment}
    (occurs : moment.Occurs False)
    {above rest : List Pending}
    {handler value : Value}
    (runs : moment.pending = above ++ .offered handler value :: rest)
    (own : ∀ waiting ∈ above, ¬waiting.IsThunk ∧ ¬waiting.IsOffered) :
    ∃ between callee below outer,
      rest = between ++ .thunk handler callee :: below ∧
      Pending.Balanced between ∧
      Surrounded False ⟨[], [], 0⟩ below outer ∧
      moment.machine.context.handlers = outer.handlers ∧
      (∀ (raised : Value) (store : Store) (depth : Nat),
        (Special.offer raised).advance ⟨store, moment.machine.context, depth⟩ =
          match outer.handlers with
          | [] =>
              .ended (.error (.fault (.raised raised))) ⟨store, moment.machine.context, depth⟩
          | next :: others =>
              .asked (.call next [raised]) (Special.leaveHandler next)
                ⟨store, { moment.machine.context with handlers := others }, depth⟩) ∧
      ∀ (cause : Fault) (condition : Value),
        moment.activity = .returning (.error (.fault cause)) →
        cause.handled? = some condition →
        ∃ front found inside back,
          rest = front ++ .thunk found inside :: back ∧
          (∀ waiting ∈ front, ¬waiting.IsThunk) ∧
          (Pending.thunk found inside :: back = .thunk handler callee :: below ↔
            ∀ waiting ∈ between, ¬waiting.IsThunk) ∧
          moment.Conducts settings.host settings.limit (.fault cause)
            (.thunk found inside :: back) ∧
          ∀ machine : Machine,
            ∃ resume,
              Moment.next? settings.host settings.limit
                  ⟨.returning (.error (.fault cause)), .thunk found inside :: back, machine⟩ =
                some
                  ⟨.serving (.call found [condition]),
                    .construct (.call found [condition]) resume :: back,
                    { machine with context := machine.context.popHandler.2 }⟩ := by
  obtain ⟨between, callee, below, outer, shape, balanced, surroundedBelow, handlers⟩ :=
    occurs.orderly.handlers_while_running runs own
  refine ⟨between, callee, below, outer, shape, balanced, surroundedBelow, handlers, ?_, ?_⟩
  · intro raised store depth
    rw [← handlers]
    generalize moment.machine.context = context
    obtain ⟨installed, escapes, lastEscape⟩ := context
    cases installed <;> rfl
  · intro cause condition unwinds handled
    obtain ⟨front, found, inside, back, split, noThunk, same⟩ :=
      Pending.exists_innermost_thunk between below
    have waits :
        moment.pending =
          (above ++ .offered handler value :: front) ++ .thunk found inside :: back := by
      rw [runs, shape, split]
      simp
    have noThunkAbove :
        ∀ waiting ∈ above ++ .offered handler value :: front, ¬waiting.IsThunk := by
      intro waiting member
      rcases List.mem_append.mp member with inAbove | inRun
      · exact (own waiting inAbove).1
      · rcases List.mem_cons.mp inRun with isRun | inFront
        · rintro ⟨_, _, isThunk⟩
          cases isRun.symm.trans isThunk
        · exact noThunk waiting inFront
    have crossing := Moment.crossing_to_thunk unwinds waits noThunkAbove
    refine ⟨front, found, inside, back, shape.trans split, noThunk, same, ?_, ?_⟩
    · exact crossing.conducts restrained (Unwind.steady_condition handled) occurs.orderly
    · exact fun machine => Moment.next?_thunk handled machine

/-- A handler that raises a condition when it is called for the integer that its thunk offers. -/
def raisingHandler : Moment :=
  .beginning
    [("with-exception-handler", .special .handling),
      ("raise-continuable", .special .continuableRaise),
      ("raise", .primitive (.signalling .raise)),
      ("lambda", .special .procedure),
      ("if", .special .conditional),
      ("=", .primitive (.comparison .equal))]
    "(with-exception-handler (lambda (e) (if (= e 1) (raise 2))) (lambda () (raise-continuable 1)))"

/-- An integer has been raised below the call for an offered integer, which a thunk waits for. -/
def raisesInHandler (raised offered : Int64) (moment : Moment) : Bool :=
  match moment.activity, moment.pending with
  | .returning (.error (.fault (.raised (.integer value)))),
    [.construct (.call _ [.integer operand]) _, .level, .construct _ _, .level] =>
      value == raised && operand == offered
  | _, _ => false

/-- What the handler raises is on its way to the form that installed it, which calls it again. -/
theorem raising_handler_gets_own_condition :
    ∃ (moment : Moment) (handler callee : Value) (between below : List Pending),
      raisingHandler.Reaches Host.absent 8 moment ∧
        moment.activity = .returning (.error (.fault (.raised (.integer 2)))) ∧
        moment.pending =
          .offered handler (.integer 1) :: (between ++ .thunk handler callee :: below) ∧
        Pending.Balanced between ∧
        moment.Conducts Host.absent 8 (.fault (.raised (.integer 2)))
          (.thunk handler callee :: below) := by
  let settings : Settings := ⟨8, false, Host.absent⟩
  have restrained : settings.host.Restrained False := Host.restrained_absent False
  have shape :
      (raisingHandler.after? Host.absent 8 46).any fun moment =>
        moment.machine.context.handlers.isEmpty &&
          raisesInHandler 2 1 moment &&
          (moment.next? Host.absent 8).any fun later =>
            later.activity.reason?.isSome && !later.machine.context.handlers.isEmpty := by
    decide +kernel
  simp only [Option.any_eq_true, Bool.and_eq_true, Option.isSome_iff_exists] at shape
  obtain ⟨moment, counted, ⟨noHandler, raises⟩, later, next, ⟨reason, returns⟩, hasHandler⟩ := shape
  have reaches : raisingHandler.Reaches Host.absent 8 moment := .of_after? counted
  have begins : raisingHandler.Occurs False := .beginning _ _
  have occurs : moment.Occurs False := begins.reaching restrained reaches
  obtain ⟨activity, pending, machine⟩ := moment
  unfold raisesInHandler at raises
  dsimp only at raises noHandler
  split at raises
  case h_1 raised handler offered resume thunkRequest thunkResume =>
    obtain ⟨rfl, rfl⟩ : raised = 2 ∧ offered = 1 := by simpa using raises
    -- Only the run of a handler changes the handlers by putting one back when it returns.
    have encloses := occurs.orderly.encloses_of_returning next (Activity.eq_of_reason? returns)
    have changed :
        later.machine.surroundings.handlers ≠ machine.surroundings.handlers := by
      intro same
      have none : machine.context.handlers = [] := by simpa using noHandler
      have noneLater : later.machine.context.handlers = [] := same.trans none
      simp [noneLater] at hasHandler
    obtain ⟨_, rfl⟩ := Pending.construct.inj (encloses.offered_of_changed changed)
    obtain ⟨between, callee, below, _, split, balanced, _, _, _, delivered⟩ :=
      conditions_of_running_handler restrained occurs (List.nil_append _).symm
        (fun _ member => nomatch member)
    obtain ⟨_, _, _, _, _, _, same, conducts, _⟩ :=
      delivered (.raised (.integer 2)) (.integer 2) rfl rfl
    have noThunk : ∀ waiting ∈ between, ¬waiting.IsThunk := by
      rcases between with _ | ⟨first, _ | ⟨second, _ | ⟨third, more⟩⟩⟩
      · cases split
      · obtain ⟨rfl, _⟩ := List.cons.inj split
        rintro _ member ⟨_, _, rfl⟩
        cases List.mem_singleton.mp member
      · cases split
      · simp at split
    rw [same.mpr noThunk] at conducts
    exact ⟨_, handler, callee, between, below, reaches, rfl, congrArg _ split, balanced, conducts⟩
  case h_2 => cases raises

/-- The program has a value, although what the handler raises finds no other handler. -/
theorem raising_handler_ends_with_value :
    ∃ value machine,
      raisingHandler.Reaches Host.absent 8 ⟨.returning (.ok value), [], machine⟩ ∧
        value.isUnspecified := by
  have shape :
      (raisingHandler.after? Host.absent 8 72).any fun last =>
        last.pending.isEmpty && last.activity.value?.any Value.isUnspecified := by
    decide +kernel
  simp only [Option.any_eq_true, Bool.and_eq_true, List.isEmpty_iff] at shape
  obtain ⟨⟨activity, pending, machine⟩, counted, isLast, value, ends, unspecified⟩ := shape
  dsimp only at isLast ends
  subst isLast
  obtain rfl := Activity.eq_of_value? ends
  exact ⟨value, machine, .of_after? counted, unspecified⟩

end SmallScheme
