import SmallScheme.Proofs.DynamicContext
import SmallScheme.Proofs.Moment.Trace

namespace SmallScheme

/-!
# How a wind is entered

The middle procedure of a wind is called where the first one has returned a value, and nowhere else:
no other construct of the language waits in the way in which a wind waits for its middle procedure.
Of the host it is assumed that it makes no winds of its own; a host that passes on whatever unwinds
makes none.
-/

open Script

namespace Pending

/-- The first procedure of a wind is running. -/
abbrev first (before thunk after : Value) : Pending :=
  .construct (.call before []) fun ending => do
    let _ ← ofResult ending
    Special.windThrough thunk after

/-- The middle procedure of a wind is running. -/
def IsMiddle (waiting : Pending) : Prop :=
  ∃ thunk after, waiting = .middle thunk after

end Pending

/-- The script waits for the middle procedure of a wind only behind a first one. -/
inductive Script.Guarded : Script Step → Prop
  | done (step : Step) :
      Guarded (.done step)
  | unwind (reason : Unwind) :
      Guarded (.unwind reason)
  | viewing
      {Result : Type}
      {look : Store → Result}
      {next : Result → Script Step} :
      (∀ store, Guarded (next (look store))) →
      Guarded (.viewing look next)
  | acting
      {Result : Type}
      {action : StoreM Result}
      {next : Except Fault Result → Script Step} :
      (∀ result, Guarded (next result)) →
      Guarded (.acting action next)
  | switching
      {Result : Type}
      {change : Context → Result × Context}
      {next : Result → Script Step} :
      (∀ result, Guarded (next result)) →
      Guarded (.switching change next)
  | asking {request : Request} {next : Except Unwind Value → Script Step} :
      ¬(Pending.construct request next).IsMiddle →
      (∀ result, Guarded (next result)) →
      Guarded (.asking request next)
  | deferring {step : Step} {next : Except Unwind Step → Script Step} :
      (∀ result, Guarded (next result)) →
      Guarded (.deferring step next)
  | wind (before thunk after : Value) :
      Guarded (call before [] >>= fun _ => Special.windThrough thunk after)

/-- The special forms of the host make no winds of their own. -/
def Host.Guarded (host : Host) : Prop :=
  ∀ name scope operands, (host.form name scope operands).Guarded

/-- What waits, waits for the middle procedure of a wind only behind a first one. -/
inductive Pending.Guarded : Pending → Prop
  | level :
      Guarded .level
  | ordinary {request : Request} {next : Except Unwind Value → Script Step} :
      (∀ result, (next result).Guarded) →
      Guarded (.construct request next)
  | first (before thunk after : Value) :
      Guarded (.first before thunk after)
  | middle (thunk after : Value) :
      Guarded (.middle thunk after)

/-- All that waits is guarded. -/
def Moment.Guarded (moment : Moment) : Prop :=
  ∀ waiting ∈ moment.pending, waiting.Guarded

variable
  {host : Host}
  {limit : Nat}
  {request : Request}
  {next : Except Unwind Value → Script Step}
  {script : Script Step}

namespace Pending

/-- A construct that makes no request when it is told to unwind does not wait as a wind. -/
theorem not_isMiddle
    (reason : Unwind)
    (ends : ∀ machine, ∃ ending last, (next (.error reason)).advance machine = .ended ending last) :
    ¬(Pending.construct request next).IsMiddle := by
  rintro ⟨thunk, after, same⟩
  obtain ⟨_, rfl⟩ := Pending.construct.inj same
  obtain ⟨_, _, ended⟩ := ends ⟨default, default, 0⟩
  cases ended

/-- A construct that waits for a text without an end does not wait as a wind. -/
theorem endless_not_isMiddle :
    ¬(Pending.construct .endless next).IsMiddle := by
  rintro ⟨thunk, after, same⟩
  cases (Pending.construct.inj same).1

/-- What passes on whatever unwinds does not wait as a wind. -/
theorem not_isMiddle_of_passes
    (passes : ∀ reason, Passes reason (next (.error reason))) :
    ¬(Pending.construct request next).IsMiddle := by
  have steady := Unwind.steady_escape 0 .unspecified
  exact not_isMiddle _ fun machine => ⟨_, _, (passes _).advance steady machine⟩

end Pending

namespace Script

theorem Passes.guarded
    {reason : Unwind}
    (passes : Passes reason script) :
    Guarded script := by
  induction passes with
  | unwinding _ =>
      exact .unwind _
  | viewing _ inductionHypothesis =>
      exact .viewing fun _ => inductionHypothesis _
  | waiting _ _ _ whenWritten whenStopped =>
      refine .asking Pending.endless_not_isMiddle fun result => ?_
      cases result with
      | ok value =>
          exact whenWritten value
      | error reason =>
          exact whenStopped reason

/-- A script that does not catch is guarded up to its ends. -/
theorem Leads.guarded
    {ends : Script Step → Prop}
    (leads : Leads False ends script)
    (included : ∀ script, ends script → Guarded script) :
    Guarded script := by
  induction leads with
  | arriving arrived =>
      exact included _ arrived
  | done step =>
      exact .done step
  | fault cause =>
      exact .unwind _
  | viewing _ inductionHypothesis =>
      exact .viewing fun _ => inductionHypothesis _
  | acting _ inductionHypothesis =>
      exact .acting inductionHypothesis
  | asking _ _ passes inductionHypothesis =>
      refine .asking (Pending.not_isMiddle_of_passes passes) fun result => ?_
      cases result with
      | ok value =>
          exact inductionHypothesis value
      | error reason =>
          exact (passes reason).guarded
  | deferring _ passes inductionHypothesis =>
      refine .deferring fun result => ?_
      cases result with
      | ok step =>
          exact inductionHypothesis step
      | error reason =>
          exact (passes reason).guarded
  | testing _ _ whenExpired whenRunning =>
      refine .switching fun running => ?_
      cases running with
      | false =>
          exact whenExpired
      | true =>
          exact whenRunning
  | escaping _ used whenExpired =>
      refine .switching fun running => ?_
      cases running with
      | false =>
          exact whenExpired
      | true =>
          rw [used]
          exact .unwind _
  | catching impossible =>
      exact impossible.elim
  | forging impossible =>
      exact impossible.elim

end Script

/-! The brackets. -/

namespace Special

/-- A fault ends a script, whatever would come after it. -/
private theorem guarded_bind_report
    {Answer : Type}
    (cause : Fault)
    (rest : Answer → Script Step) :
    Guarded ((report cause).bind rest) := by
  have ordinary : Ordinary False (report cause : Script Step) := leads_report
  rw [bind_report]
  exact ordinary.guarded fun _ impossible => impossible.elim

private theorem guarded_answerResult
    (result : Except Unwind Value) :
    Guarded (ofResult result >>= answer) := by
  cases result with
  | ok value =>
      exact .done _
  | error reason =>
      exact .unwind reason

theorem guarded_windUp
    (after : Value)
    (result : Except Unwind Value) :
    Guarded (windUp after result) := by
  refine .asking ?_ fun ending => ?_
  · exact Pending.not_isMiddle (.escape 0 .unspecified) fun _ => ⟨_, _, rfl⟩
  · cases ending with
    | ok _ =>
        exact guarded_answerResult result
    | error reason =>
        exact .unwind reason

private theorem guarded_withEscape
    (receiver : Value) :
    Guarded (withEscape receiver) := by
  refine .switching fun identity => .asking ?_ fun result => .switching fun _ => ?_
  · rintro ⟨thunk, after, same⟩
    cases (Pending.construct.inj same).1
  · match result with
    | .ok value =>
        exact .done _
    | .error (.fault cause) =>
        exact .unwind _
    | .error (.escape target value) =>
        dsimp only
        split
        · exact .done _
        · exact .unwind _

private theorem guarded_offer
    (value : Value) :
    Guarded (offer value) := by
  refine .switching fun handler => ?_
  cases handler with
  | none =>
      exact .unwind _
  | some handler =>
      refine .asking ?_ fun result => .switching fun _ => guarded_answerResult result
      rintro ⟨thunk, after, same⟩
      cases (Pending.construct.inj same).1

private theorem guarded_withHandler
    (handler thunk : Value) :
    Guarded (withHandler handler thunk) := by
  refine .switching fun _ => .asking ?_ fun result => .switching fun _ => ?_
  · exact Pending.not_isMiddle (.escape 0 .unspecified) fun _ => ⟨_, _, rfl⟩
  · match result with
    | .ok value =>
        exact .done _
    | .error (.fault cause) =>
        have ordinary : Ordinary False (handle handler cause) := leads_handle
        exact ordinary.guarded fun _ impossible => impossible.elim
    | .error (.escape target value) =>
        exact .unwind _

private theorem guarded_restore
    (previous : List (Nat × Value))
    (result : Except Unwind Value) :
    Guarded (restore previous result) := by
  refine .acting fun restored => ?_
  cases restored with
  | ok _ =>
      exact guarded_answerResult result
  | error fault =>
      exact guarded_bind_report fault _

/-- What only unwinds still waits for nothing when parameters are restored behind it. -/
private theorem guarded_passes_restore
    (previous : List (Nat × Value))
    {reason : Unwind}
    {script : Script Value}
    (passes : Passes reason script) :
    Guarded (script.attempt.bind (restore previous)) := by
  induction passes with
  | unwinding _ =>
      exact guarded_restore previous _
  | viewing _ inductionHypothesis =>
      exact .viewing fun _ => inductionHypothesis _
  | waiting _ _ _ whenWritten whenStopped =>
      refine .asking Pending.endless_not_isMiddle fun result => ?_
      cases result with
      | ok value =>
          exact whenWritten value
      | error reason =>
          exact whenStopped reason

private theorem guarded_rebound
    (previous : List (Nat × Value))
    {script : Script Value}
    (leads : Leads False Finishing script) :
    Guarded (script.attempt.bind (restore previous)) := by
  induction leads with
  | arriving arrived =>
      obtain ⟨step⟩ := arrived
      refine .asking ?_ fun result => ?_
      · rintro ⟨thunk, after, same⟩
        cases (Pending.construct.inj same).1
      · cases result with
        | ok value =>
            exact guarded_restore previous _
        | error reason =>
            exact guarded_restore previous _
  | done value =>
      exact guarded_restore previous _
  | fault cause =>
      exact guarded_restore previous _
  | viewing _ inductionHypothesis =>
      exact .viewing fun _ => inductionHypothesis _
  | acting _ inductionHypothesis =>
      exact .acting inductionHypothesis
  | asking _ _ passes inductionHypothesis =>
      have steady := Unwind.steady_escape 0 .unspecified
      refine .asking ?_ fun result => ?_
      · refine Pending.not_isMiddle (.escape 0 .unspecified) fun machine => ?_
        obtain ⟨last, ended⟩ := (passes _).advance_restore steady previous machine
        exact ⟨_, last, ended⟩
      · cases result with
        | ok value =>
            exact inductionHypothesis value
        | error reason =>
            exact guarded_passes_restore previous (passes reason)
  | deferring _ passes inductionHypothesis =>
      refine .deferring fun result => ?_
      cases result with
      | ok step =>
          exact inductionHypothesis step
      | error reason =>
          exact guarded_passes_restore previous (passes reason)
  | testing _ _ whenExpired whenRunning =>
      refine .switching fun running => ?_
      cases running with
      | false =>
          exact whenExpired
      | true =>
          exact whenRunning
  | @escaping _ _ next _ used whenExpired =>
      refine .switching fun running => ?_
      cases running with
      | false =>
          exact whenExpired
      | true =>
          change Guarded ((next true).attempt.bind (restore previous))
          rw [used]
          exact guarded_restore previous _
  | catching impossible =>
      exact impossible.elim
  | forging impossible =>
      exact impossible.elim

private theorem guarded_whileRebound
    (scope : Scope)
    (rebound : List (Nat × Value))
    (forms : List Value) :
    Guarded (whileRebound scope rebound forms) := by
  refine .acting fun exchanged => ?_
  cases exchanged with
  | error fault =>
      exact guarded_bind_report fault _
  | ok previous =>
      refine .acting fun opened => ?_
      cases opened with
      | error fault =>
          exact guarded_bind_report fault _
      | ok inner =>
          exact guarded_rebound previous leads_bodyValue

end Special

/-- Whatever script a step amounts to, it is guarded. -/
theorem Machine.guarded_stepScript
    (guarded : host.Guarded)
    {step : Step}
    (amounts : Machine.stepScript host step = .inr script) :
    script.Guarded := by
  have permitted : Law.free.Permits step := by
    cases step <;> trivial
  have conforms := Machine.conforms_stepScript host.keeps_free permitted amounts
  have leads : Leads False Script.Guarded script := by
    refine conforms.leads fun script ended => ?_
    cases ended with
    | leaving leaves => exact leaves.leads
    | escape receiver => exact .arriving (Special.guarded_withEscape receiver)
    | wind before thunk after => exact .arriving (.wind before thunk after)
    | offer value => exact .arriving (Special.guarded_offer value)
    | handler handler thunk => exact .arriving (Special.guarded_withHandler handler thunk)
    | rebinding rebound forms _ => exact .arriving (Special.guarded_whileRebound _ rebound forms)
    | «foreign» name operands _ => exact .arriving (guarded _ _ _)
  exact leads.guarded fun _ isGuarded => isGuarded

/-- A host that passes on whatever unwinds makes no winds. -/
theorem Host.Restrained.guarded
    (restrained : host.Restrained False) :
    host.Guarded :=
  fun _ _ _ => (restrained _ _ _).guarded fun _ impossible => impossible.elim

/-- Where a guarded script makes a request, it waits guarded, and not for a middle procedure. -/
theorem Script.Guarded.asked
    (guarded : script.Guarded)
    {machine last : Machine}
    (asks : script.advance machine = .asked request next last) :
    (Pending.construct request next).Guarded ∧
      ¬(Pending.construct request next).IsMiddle := by
  induction guarded generalizing machine with
  | done step =>
      cases asks
  | unwind reason =>
      cases asks
  | viewing _ inductionHypothesis =>
      exact inductionHypothesis _ asks
  | acting _ inductionHypothesis =>
      exact inductionHypothesis _ asks
  | switching _ inductionHypothesis =>
      exact inductionHypothesis _ asks
  | deferring _ inductionHypothesis =>
      exact inductionHypothesis _ asks
  | asking notMiddle continues _ =>
      cases asks
      exact ⟨.ordinary continues, notMiddle⟩
  | wind before thunk after =>
      cases asks
      exact ⟨.first before thunk after,
        Pending.not_isMiddle (.escape 0 .unspecified) fun _ => ⟨_, _, rfl⟩⟩

namespace Moment

/-- The first procedure of a wind has returned a value. -/
def HasBegun (thunk after : Value) (below : List Pending) (moment : Moment) : Prop :=
  ∃ before value,
    moment.activity = .returning (.ok value) ∧
      moment.pending = .first before thunk after :: below

variable
  {moment later : Moment}
  {pending : List Pending}

/-- The later one is guarded, and a wind is entered only where its first procedure has returned. -/
structure Keeps (moment later : Moment) : Prop where
  guarded : later.Guarded
  begun :
    ∀ thunk after below,
      later.Enters (.wind thunk after below) →
      moment.HasBegun thunk after below

private theorem keeps_quiet
    (guarded : ∀ waiting ∈ later.pending, waiting.Guarded)
    (noCall : ∀ callee operands, later.activity ≠ .serving (.call callee operands)) :
    moment.Keeps later where
  guarded := guarded
  begun _ _ _ enters := (noCall _ _ enters.1).elim

private theorem keeps_ofProgress
    {machine : Machine}
    (guarded : ∀ waiting ∈ pending, waiting.Guarded)
    (script : Script Step)
    (isGuarded : script.Guarded) :
    moment.Keeps (ofProgress pending (script.advance machine)) := by
  cases progress : script.advance machine with
  | ended result last =>
      cases result with
      | ok step =>
          exact keeps_quiet guarded fun _ _ impossible => nomatch impossible
      | error reason =>
          exact keeps_quiet guarded fun _ _ impossible => nomatch impossible
  | asked request next last =>
      obtain ⟨waits, notMiddle⟩ := isGuarded.asked progress
      refine ⟨?_, ?_⟩
      · intro waiting member
        rcases List.mem_cons.mp member with rfl | member
        · exact waits
        · exact guarded waiting member
      · intro thunk after below enters
        obtain ⟨same, _⟩ := List.cons.inj enters.2
        exact (notMiddle ⟨thunk, after, same⟩).elim

private theorem keeps_ofOpening
    {machine : Machine}
    (guarded : ∀ waiting ∈ pending, waiting.Guarded)
    (step : Step) :
    moment.Keeps (ofOpening limit step pending machine) := by
  unfold ofOpening
  split
  · exact keeps_quiet guarded fun _ _ impossible => nomatch impossible
  · refine keeps_quiet (fun waiting member => ?_) fun _ _ impossible => nomatch impossible
    rcases List.mem_cons.mp member with rfl | member
    · exact .level
    · exact guarded waiting member

/-- Where the first procedure of a wind has returned a value, the wind is entered. -/
theorem HasBegun.enters
    {thunk after : Value}
    {below : List Pending}
    (begun : moment.HasBegun thunk after below)
    (next : moment.next? host limit = some later) :
    later.Enters (.wind thunk after below) := by
  obtain ⟨activity, pending, machine⟩ := moment
  obtain ⟨before, value, returns, waits⟩ := begun
  dsimp only at returns waits
  subst returns waits
  obtain rfl := Option.some.inj next
  exact ⟨rfl, rfl⟩

/--
All that waits stays guarded, and a wind is entered only where its first procedure has returned.
The cases are those of a step, and of what it is that goes on.
-/
theorem Guarded.keeps
    (guardedHost : host.Guarded)
    (guarded : moment.Guarded)
    (next : moment.next? host limit = some later) :
    moment.Keeps later := by
  cases steps_of_next? next with
  | evaluating =>
      exact keeps_ofOpening guarded _
  | calling =>
      exact keeps_ofOpening guarded _
  | finishing _ | reaching | waiting =>
      exact keeps_quiet guarded fun _ _ impossible => nomatch impossible
  | beginning amounts =>
      have isGuarded := Machine.guarded_stepScript guardedHost amounts
      exact keeps_ofProgress guarded _ isGuarded
  | closing =>
      have guardedBelow := fun waiting member => guarded waiting (List.mem_cons_of_mem _ member)
      exact keeps_quiet guardedBelow fun _ _ impossible => nomatch impossible
  | @resuming result request resume below machine =>
      have guardedBelow : ∀ waiting ∈ below, waiting.Guarded :=
        fun waiting member => guarded waiting (List.mem_cons_of_mem _ member)
      have guardedWaiting := guarded (.construct request resume) List.mem_cons_self
      cases guardedWaiting with
      | ordinary continues =>
          exact keeps_ofProgress guardedBelow _ (continues result)
      | middle thunk after =>
          exact keeps_ofProgress guardedBelow _ (Special.guarded_windUp after result)
      | first before thunk after =>
          cases result with
          | error reason =>
              exact keeps_quiet guardedBelow fun _ _ impossible => nomatch impossible
          | ok value =>
              refine ⟨?_, ?_⟩
              · intro waiting member
                rcases List.mem_cons.mp member with rfl | member
                · exact .middle thunk after
                · exact guardedBelow waiting member
              · intro otherThunk otherAfter otherBelow enters
                have same :
                    Enclosure.wind thunk after below = .wind otherThunk otherAfter otherBelow :=
                  Enclosure.eq_of_waiting enters.2
                cases same
                exact ⟨before, value, rfl, rfl⟩

/-- All moments of a run are guarded. -/
theorem Reaches.guarded
    (guardedHost : host.Guarded)
    (reaches : Reaches host limit moment later)
    (guarded : moment.Guarded) :
    later.Guarded := by
  induction reaches with
  | refl =>
      exact guarded
  | tail _ next inductionHypothesis =>
      exact (inductionHypothesis.keeps guardedHost next).guarded

end Moment

end SmallScheme
