import SmallScheme.Proofs.Moment.Waiting

namespace SmallScheme

/-!
# Escapes return from their receivers

An escape that has been applied unwinds to the receiver that it was made for, which returns the
value.  It passes everything on the way as it is, and it never leaves a run that it was made in.
Once its receiver has ended, the escape has expired for the rest of the life of the machine.
-/

/-- The moment asks for the call of a receiver with an escape that is new in the life of its
machine. -/
structure Moment.MakesEscape
    (callee : Value)
    (identity : Nat)
    (below : List Pending)
    (moment : Moment) : Prop where
  serves : moment.activity = .serving (.call callee [.escape identity])
  waits : moment.pending = .receiver callee identity :: below
  fresh :
    ∃ before : Moment,
      before.Occurs False ∧
        Moment.Follows False before moment ∧
        before.machine.context.lastEscape < identity

variable
  {catches : Prop}
  {base inner : Surroundings}
  {host : Host}
  {limit fuel : Nat}
  {request : Request}
  {pending below : List Pending}
  {callee : Value}
  {identity : Nat}

/-- A running escape is one of the base, or its receiver waits; the nearest one catches it. -/
theorem Surrounded.exists_receiver
    (surrounded : Surrounded catches base pending inner)
    (running : identity ∈ inner.escapes)
    (notBase : identity ∉ base.escapes)
    (value : Value) :
    ∃ above callee below,
      pending = above ++ .receiver callee identity :: below ∧
        ∀ waiting ∈ above, ¬waiting.Catches (.escape identity value) := by
  induction surrounded with
  | bare =>
      exact (notBase running).elim
  | @within waiting rest outer inner encloses _ inductionHypothesis =>
      by_cases caught : waiting.Catches (.escape identity value)
      · cases caught
        exact ⟨[], _, rest, rfl, fun _ member => nomatch member⟩
      · have runningOutside : identity ∈ outer.escapes := by
          cases encloses with
          | receiver =>
              rcases List.mem_cons.mp running with own | outside
              · subst own
                exact (caught .receiver).elim
              · exact outside
          | _ =>
              exact running
        obtain ⟨above, callee, below, shape, uncaught⟩ := inductionHypothesis runningOutside
        refine ⟨waiting :: above, callee, below, by rw [shape]; rfl, ?_⟩
        intro other member
        rcases List.mem_cons.mp member with isWaiting | inAbove
        · exact isWaiting ▸ caught
        · exact uncaught other inAbove

namespace Moment

/-- A receiver to which its own escape is returned returns the value. -/
theorem next?_caught
    (value : Value)
    (machine : Machine) :
    (⟨.returning (.error (.escape identity value)), .receiver callee identity :: below, machine⟩ :
        Moment).next? host limit =
      some
        ⟨.serving (.finish (.value value)), below,
          { machine with context := (machine.context.closeEscape identity).2 }⟩ := by
  simp only [next?, Progress.Settles.advance_leaveReceiver, if_true]
  rfl

/-- Where an escape unwinds, the receiver that it was made for waits, and the escape comes to it. -/
theorem Occurs.escape_conducted
    (restrained : host.Restrained False)
    {moment : Moment}
    {value : Value}
    (occurs : moment.Occurs False)
    (unwinds : moment.activity = .returning (.error (.escape identity value))) :
    ∃ callee below asking,
      asking.MakesEscape callee identity below ∧
        Precedes False asking moment ∧
        .receiver callee identity :: below <:+ moment.pending ∧
        moment.Conducts host limit (.escape identity value)
          (.receiver callee identity :: below) := by
  have orderly := occurs.orderly
  have running := orderly.admits not_false _ unwinds identity value rfl
  obtain ⟨above, callee, below, shape, uncaught⟩ :=
    orderly.surrounded.exists_receiver running (fun member => nomatch member) value
  have waits : .receiver callee identity :: below <:+ moment.pending := ⟨above, shape.symm⟩
  obtain ⟨request, machine, nested, idle, precedes⟩ := occurs
  rcases precedes.asked waits with inFirst | ⟨before, asking, toBefore, asks, fromAsking, made⟩
  · have empty := List.suffix_nil.mp inFirst
    cases empty
  · have occursBefore : before.Occurs False := ⟨request, machine, nested, idle, toBefore⟩
    have fresh := asks.new_receiver occursBefore.orderly made.1 made.2
    refine ⟨callee, below, asking, ⟨made.1, made.2, before, occursBefore, asks, fresh⟩,
      fromAsking, waits, ?_⟩
    have crossing : moment.Crossing (.escape identity value)
        (.receiver callee identity :: below) := by
      obtain ⟨activity, pending, machine⟩ := moment
      dsimp only at shape unwinds
      subst shape unwinds
      exact .leaving uncaught
    exact crossing.conducts restrained (Unwind.steady_escape identity value) orderly

/-- Once the receiver of an escape has ended, the escape is never running again. -/
theorem Occurs.not_running
    {after later : Moment}
    {result : Except Unwind Value}
    {machine : Machine}
    (occurs :
      Occurs catches ⟨.returning result, .receiver callee identity :: below, machine⟩)
    (ends :
      Follows catches ⟨.returning result, .receiver callee identity :: below, machine⟩ after)
    (precedes : Precedes catches after later) :
    identity ∉ later.machine.context.escapes := by
  have orderly := occurs.orderly
  have surrounded := orderly.surrounded
  have given : identity ≤ machine.context.lastEscape := by
    generalize here : machine.surroundings = inner at surrounded
    cases surrounded with
    | within encloses _ =>
        have enclosed := encloses.of_receiver.1
        have running : machine.context.escapes = identity :: _ :=
          congrArg Surroundings.escapes (here.trans enclosed)
        refine orderly.numbered identity ?_
        rw [running]
        exact List.mem_cons_self
  have closed : after.machine.context = (machine.context.closeEscape identity).2 := by
    cases ends with
    | within restrained next =>
        simp only [next?, Progress.Settles.advance_leaveReceiver, Option.some.injEq] at next
        rw [← next, ofProgress_ended_machine]
  -- From here on an escape that is running is either one of these or has a later number.
  have orderlyAfter := (ends.orderly orderly).1
  have renewed := (precedes.orderly orderlyAfter).2
  intro running
  rcases renewed.fresh identity running with runningAfter | isNew
  · rw [closed] at runningAfter
    simp [Context.closeEscape] at runningAfter
  · rw [closed] at isNew
    exact absurd given (Nat.not_le_of_lt isNew)

end Moment

/-- Applying an escape that is running unwinds with the value that it is applied to. -/
theorem Application.unwinds
    {context : Context}
    (running : identity ∈ context.escapes)
    (value : Value)
    (store : Store)
    (depth : Nat) :
    (Application.apply host (.escape identity) [value]).advance ⟨store, context, depth⟩ =
      .ended (.error (.escape identity value)) ⟨store, context, depth⟩ := by
  have isRunning : context.escapes.contains identity = true := by
    simpa using running
  change (Special.escape identity [value]).advance ⟨store, context, depth⟩ = _
  simp only [Special.escape, Script.switch, Script.advance, Context.isRunning, isRunning, bind,
    Script.bind]
  rfl

/-- Applying an escape that is not running fails, whether or not it is a form that applies it. -/
theorem Application.expired
    {context : Context}
    (expired : identity ∉ context.escapes)
    (form : Value)
    (operands : List Value)
    (store : Store)
    (depth : Nat) :
    (Application.apply host (.escape identity) operands).advance ⟨store, context, depth⟩ =
        .ended (.error (.fault .continuationExpired)) ⟨store, context, depth⟩ ∧
      ((Application.apply host (.escape identity) operands).attempt.bind
          (Application.locate form)).advance ⟨store, context, depth⟩ =
        .ended (.error (.fault .continuationExpired)) ⟨store, context, depth⟩ := by
  have notRunning : context.escapes.contains identity = false := by
    simpa using expired
  have fails :
      (Special.escape identity operands).advance ⟨store, context, depth⟩ =
        .ended (.error (.fault .continuationExpired)) ⟨store, context, depth⟩ := by
    simp only [Special.escape, Script.switch, Script.advance, Context.isRunning, notRunning,
      bind, Script.bind]
    rfl
  exact ⟨fails, Script.advance_attempt_bind fails (Application.locate form)⟩

/--
An escape unwinds only runs that have begun while its receiver was running, and so no run of a
session ends with one.  While its receiver is running, applying the escape unwinds with the value,
and the receiver that it was made for waits.  Everything that waits above lets the escape pass as it
is, unless the last procedure of a wind ends with a reason of its own; the receiver itself returns
the value.  After a receiver has ended in any way, applying its escape fails.
-/
theorem escapes_return_from_their_receivers
    {settings : Settings}
    (restrained : settings.host.Restrained False) :
    (∀ (moment : Moment) (fuel : Nat) (request : Request) (identity : Nat) (value : Value)
        (machine : Machine),
      moment.Occurs False →
      Machine.serve settings.host settings.limit fuel request moment.machine =
        some (.error (.escape identity value), machine) →
      identity ∈ moment.machine.context.escapes) ∧
    (∀ session later : Session,
      session.Reachable settings →
      session.Becomes settings later →
      (∀ (fuel : Nat) (request : Request) (identity : Nat) (value : Value) (machine : Machine),
        Machine.serve settings.host settings.limit fuel request later.machine ≠
          some (.error (.escape identity value), machine)) ∧
      ∀ (result : Except Unwind Value) (request : Request),
        request.IsNested →
        Moment.Occurs False ⟨.serving request, [], later.machine⟩ ∧
          Moment.Precedes False
            ⟨.returning result, [], session.machine⟩
            ⟨.serving request, [], later.machine⟩) ∧
    (∀ (identity : Nat) (value : Value) (store : Store) (context : Context) (depth : Nat),
      identity ∈ context.escapes →
      (Application.apply settings.host (.escape identity) [value]).advance
          ⟨store, context, depth⟩ =
        .ended (.error (.escape identity value)) ⟨store, context, depth⟩) ∧
    (∀ (moment : Moment) (identity : Nat) (value : Value),
      moment.Occurs False →
      moment.activity = .returning (.error (.escape identity value)) →
      ∃ callee below asking,
        asking.MakesEscape callee identity below ∧
        Moment.Precedes False asking moment ∧
        .receiver callee identity :: below <:+ moment.pending ∧
        moment.Conducts settings.host settings.limit (.escape identity value)
          (.receiver callee identity :: below) ∧
        ∀ machine : Machine,
          Moment.next? settings.host settings.limit
              ⟨.returning (.error (.escape identity value)),
                .receiver callee identity :: below, machine⟩ =
            some
              ⟨.serving (.finish (.value value)), below,
                { machine with context := (machine.context.closeEscape identity).2 }⟩) ∧
    (∀ (callee : Value) (identity : Nat) (below : List Pending) (result : Except Unwind Value)
        (machine : Machine) (after later : Moment),
      Moment.Occurs False ⟨.returning result, .receiver callee identity :: below, machine⟩ →
      Moment.Follows False ⟨.returning result, .receiver callee identity :: below, machine⟩ after →
      Moment.Precedes False after later →
      ∀ (host : Host) (form : Value) (operands : List Value) (store : Store) (depth : Nat),
        (Application.apply host (.escape identity) operands).advance
            ⟨store, later.machine.context, depth⟩ =
          .ended (.error (.fault .continuationExpired)) ⟨store, later.machine.context, depth⟩ ∧
        ((Application.apply host (.escape identity) operands).attempt.bind
            (Application.locate form)).advance ⟨store, later.machine.context, depth⟩ =
          .ended (.error (.fault .continuationExpired))
            ⟨store, later.machine.context, depth⟩) := by
  have runningBefore
      {fuel : Nat}
      {request : Request}
      {identity : Nat}
      {value : Value}
      {before machine : Machine}
      (numbered : before.context.Numbered)
      (served :
        Machine.serve settings.host settings.limit fuel request before =
          some (.error (.escape identity value), machine)) :
      identity ∈ before.context.escapes := by
    have orderly := Machine.orderly_of_serve restrained numbered served
    have running := orderly.admits not_false _ rfl identity value rfl
    have same : machine.surroundings = before.surroundings := orderly.surrounded.eq_base
    rw [same] at running
    exact running
  refine ⟨?_, ?_, ?_, ?_, ?_⟩
  · intro moment fuel request identity value machine occurs served
    exact runningBefore occurs.orderly.numbered served
  · intro session later reachable becomes
    have idle := Session.Becomes.idle restrained becomes (reachable.idle restrained)
    constructor
    · intro fuel request identity value machine served
      exact idle.not_running identity (runningBefore idle.numbered served)
    · intro result request nested
      exact ⟨.of_idle nested idle, Session.Becomes.precedes restrained becomes result nested⟩
  · intro identity value store context depth running
    exact Application.unwinds running value store depth
  · intro moment identity value occurs unwinds
    obtain ⟨callee, below, asking, makes, precedes, waits, conducts⟩ :=
      occurs.escape_conducted restrained unwinds
    exact ⟨callee, below, asking, makes, precedes, waits, conducts,
      fun machine => Moment.next?_caught value machine⟩
  · intro callee identity below result machine after later occurs ends precedes host form operands
      store depth
    have notRunning := occurs.not_running ends precedes
    exact Application.expired notRunning form operands store depth

/-- A receiver that applies its escape while it evaluates an operand. -/
def escapeInOperand : Moment :=
  .beginning
    [("call/cc", .special .escapeShort), ("lambda", .special .procedure)]
    "(call/cc (lambda (k) (k (k 5))))"

/-- The reason is an escape with an integer. -/
def isEscapeWith (identity : Nat) (number : Int64) : Unwind → Bool
  | .escape target (.integer value) => target == identity && value == number
  | _ => false

theorem eq_of_isEscapeWith
    {identity : Nat}
    {number : Int64}
    {reason : Unwind}
    (escapes : isEscapeWith identity number reason) :
    reason = .escape identity (.integer number) := by
  unfold isEscapeWith at escapes
  split at escapes
  · simp only [Bool.and_eq_true, beq_iff_eq] at escapes
    obtain ⟨rfl, rfl⟩ := escapes
    rfl
  · cases escapes

/-- Five constructs wait when the inner application unwinds; the outer one never takes place. -/
theorem escape_in_operand_is_conducted :
    ∃ (moment : Moment) (callee : Value) (below : List Pending),
      escapeInOperand.Reaches Host.absent 8 moment ∧
        moment.activity = .returning (.error (.escape 1 (.integer 5))) ∧
        moment.pending.length = 5 ∧
        .receiver callee 1 :: below <:+ moment.pending ∧
        moment.Conducts Host.absent 8 (.escape 1 (.integer 5)) (.receiver callee 1 :: below) := by
  let settings : Settings := ⟨8, false, Host.absent⟩
  have restrained : settings.host.Restrained False := Host.restrained_absent False
  have shape :
      (escapeInOperand.after? Host.absent 8 18).any fun moment =>
        moment.pending.length == 5 && moment.activity.reason?.any (isEscapeWith 1 5) := by
    decide +kernel
  simp only [Option.any_eq_true, Bool.and_eq_true, beq_iff_eq] at shape
  obtain ⟨moment, counted, waits, reason, unwinds, escapes⟩ := shape
  obtain rfl := eq_of_isEscapeWith escapes
  have returning := Activity.eq_of_reason? unwinds
  have reaches : escapeInOperand.Reaches Host.absent 8 moment := .of_after? counted
  have begins : escapeInOperand.Occurs False := .beginning _ _
  obtain ⟨callee, below, _, _, _, receives, conducts, _⟩ :=
    (escapes_return_from_their_receivers restrained).2.2.2.1 moment 1 (.integer 5)
      (begins.reaching restrained reaches) returning
  exact ⟨moment, callee, below, reaches, returning, waits, receives, conducts⟩

end SmallScheme
