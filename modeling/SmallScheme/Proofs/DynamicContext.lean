import SmallScheme.Host.Sample
import SmallScheme.Proofs.Moment.Life

namespace SmallScheme

/-!
# The dynamic context is given back

Levels of nesting, escapes, handlers and offers to handlers each put something around an evaluation
and take it off again, and programs nest them in any way they like.  However a request ends that is
served at any moment in the life of a machine, what surrounded its beginning surrounds its end.
-/

variable
  {catches : Prop}
  {host : Host}
  {limit fuel : Nat}
  {request : Request}
  {result : Except Unwind Value}

namespace Machine

/-- Serving a request leaves the surroundings as they were. -/
theorem surroundings_of_serve
    (restrained : host.Restrained catches)
    {machine last : Machine}
    (numbered : machine.context.Numbered)
    (served : serve host limit fuel request machine = some (result, last)) :
    last.surroundings = machine.surroundings :=
  (orderly_of_serve restrained numbered served).surrounded.eq_base

end Machine

/-- Forgetting the surroundings of an idle session changes nothing. -/
theorem Session.settle_of_idle
    {session : Session}
    (idle : session.machine.Idle) :
    session.settle = session := by
  obtain ⟨root, user, machine⟩ := session
  obtain ⟨store, lastEscape, rfl⟩ := Machine.of_surroundings idle
  rfl

/--
However a request ends that is served at any moment in the life of a machine, the open levels, the
handlers and the running escapes are afterwards what they were before.  So a session that has been
used in any way is settled already, even after an evaluation that has failed.
-/
theorem dynamic_context_is_given_back
    {settings : Settings}
    (restrained : settings.host.Restrained True) :
    (∀ (moment : Moment) (fuel : Nat) (request : Request) (result : Except Unwind Value)
        (machine : Machine),
      moment.Occurs True →
      Machine.serve settings.host settings.limit fuel request moment.machine =
        some (result, machine) →
      machine.depth = moment.machine.depth ∧
        machine.context.handlers = moment.machine.context.handlers ∧
        machine.context.escapes = moment.machine.context.escapes) ∧
      ∀ session : Session,
        session.Reachable settings →
        session.machine.Idle ∧
          session.settle = session ∧
          ∀ request : Request,
            request.IsNested →
            Moment.Occurs True ⟨.serving request, [], session.machine⟩ := by
  constructor
  · intro moment fuel request result machine occurs served
    have same : machine.surroundings = moment.machine.surroundings :=
      Machine.surroundings_of_serve restrained occurs.orderly.numbered served
    exact ⟨congrArg Surroundings.depth same, congrArg Surroundings.handlers same,
      congrArg Surroundings.escapes same⟩
  · intro session reachable
    have idle := reachable.idle restrained
    exact ⟨idle, Session.settle_of_idle idle, fun _ nested => .of_idle nested idle⟩

private theorem Host.Sample.leads_writings
    {catches : Prop}
    (operands : List Value) :
    Script.Ordinary catches (writings operands) := by
  induction operands with
  | nil =>
      exact .done _
  | cons operand rest inductionHypothesis =>
      exact .bind Script.leads_writing fun _ => .bind inductionHypothesis fun _ => .done _

/-- The special forms of the sample host write their operands or hand over the last one. -/
theorem Host.restrained_sample
    (catches : Prop) :
    Host.sample.Restrained catches := by
  intro name scope operands
  change Script.Ordinary catches (Sample.form name scope operands)
  unfold Sample.form
  split
  · refine .bind (Sample.leads_writings operands) fun _ => ?_
    exact .bind Script.leads_perform fun _ => Script.leads_answer
  · split
    · exact Script.leads_defer
    · exact Script.leads_refuseCount
  · exact Script.leads_fail

/-- A form that makes an escape for an integer, which is no procedure. -/
def refusedReceiver : Value × Store :=
  Store.empty.newList [.special .escapeShort, .integer 7]

/-- The result is a fault. -/
def failed : Except Unwind Value → Bool
  | .error (.fault _) => true
  | _ => false

theorem eq_of_failed
    {result : Except Unwind Value}
    (isFault : failed result) :
    ∃ cause, result = .error (.fault cause) := by
  unfold failed at isFault
  split at isFault
  · exact ⟨_, rfl⟩
  · cases isFault

/-- The form is about to be evaluated. -/
def refusedReceiverBegins : Moment :=
  ⟨.serving (.evaluate ⟨0, []⟩ refusedReceiver.1), [], ⟨refusedReceiver.2, ⟨[], [], 0⟩, 0⟩⟩

/--
While the integer is being called, the escape is running on the second level.  Evaluating the form
once more at that moment makes another escape, fails, and leaves the first one running.
-/
theorem dynamic_context_after_refused_receiver :
    ∃ (moment : Moment) (cause : Fault) (machine : Machine),
      Machine.serve Host.sample 8 8 (.evaluate ⟨0, []⟩ refusedReceiver.1) moment.machine =
          some (.error (.fault cause), machine) ∧
        machine.context.lastEscape = 2 ∧
        machine.depth = 2 ∧
        machine.context.handlers = [] ∧
        machine.context.escapes = [1] := by
  let settings : Settings := ⟨8, false, Host.sample⟩
  have restrained : settings.host.Restrained True := Host.restrained_sample True
  have shape :
      (refusedReceiverBegins.after? Host.sample 8 13).any (fun moment =>
        moment.machine.depth == 2 &&
          moment.machine.context.handlers.isEmpty &&
          moment.machine.context.escapes == [1] &&
          (Machine.serve Host.sample 8 8 (.evaluate ⟨0, []⟩ refusedReceiver.1) moment.machine).any
            fun outcome =>
              failed outcome.1 && outcome.2.context.lastEscape == 2) := by
    decide +kernel
  simp only [Option.any_eq_true, Bool.and_eq_true, beq_iff_eq, List.isEmpty_iff] at shape
  obtain ⟨moment, counted, ⟨⟨depthBefore, handlersBefore⟩, escapesBefore⟩, ⟨ending, last⟩,
    served, isFault, lastEscape⟩ := shape
  obtain ⟨cause, rfl⟩ := eq_of_failed isFault
  have begins : refusedReceiverBegins.Occurs True := .of_idle trivial rfl
  have occurs : moment.Occurs True := begins.reaching restrained (.of_after? counted)
  obtain ⟨depth, handlers, escapes⟩ :=
    (dynamic_context_is_given_back restrained).1 moment 8 _ _ _ occurs served
  exact ⟨moment, cause, last, served, lastEscape, depth.trans depthBefore,
    handlers.trans handlersBefore, escapes.trans escapesBefore⟩

end SmallScheme
