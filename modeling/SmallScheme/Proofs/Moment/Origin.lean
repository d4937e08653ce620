import SmallScheme.Proofs.Moment.Basic

namespace SmallScheme

/-!
# Where unwinding starts

A script that unwinds hands on the reason of a request that it has made, or it is the first one to
unwind with it.  So whatever ends a run, other than the limit on nesting, has an origin: the script
of a step of the run that has come up with it.
-/

namespace Script

/-- The run of the script makes the request when the machine has come to `asked`. -/
inductive Asks (serve : Request → Run Value) : Script Step → Machine → Request → Machine → Prop
  | first
      {script : Script Step}
      {machine asked : Machine}
      {request : Request}
      {next : Except Unwind Value → Script Step} :
      script.advance machine = .asked request next asked →
      Asks serve script machine request asked
  | later
      {script : Script Step}
      {machine before between asked : Machine}
      {earlier request : Request}
      {next : Except Unwind Value → Script Step}
      {result : Except Unwind Value} :
      script.advance machine = .asked earlier next before →
      serve earlier before = some (result, between) →
      Asks serve (next result) between request asked →
      Asks serve script machine request asked

/-- The script unwinds with the reason, and none of its requests has ended with that reason. -/
structure Originates
    (serve : Request → Run Value)
    (script : Script Step)
    (reason : Unwind)
    (machine last : Machine) : Prop where
  unwinds : script.run serve Run.done machine = some (.error reason, last)
  unheard :
    ∀ {request : Request} {asked after : Machine},
      script.Asks serve machine request asked →
      serve request asked ≠ some (.error reason, after)

end Script

open Moment

variable
  {host : Host}
  {limit fuel : Nat}
  {machine : Machine}
  {pending : List Pending}

/-- Where a request is made, the run comes to serve it. -/
theorem Script.Asks.reaches
    {script : Script Step}
    {request : Request}
    {asked : Machine}
    (asks : script.Asks (Machine.serve host limit fuel) machine request asked)
    (pending : List Pending) :
    ∃ waiting,
      Reaches host limit
        (ofProgress pending (script.advance machine))
        ⟨.serving request, waiting, asked⟩ := by
  induction asks with
  | first advanced =>
      rw [advanced]
      exact ⟨_, .refl _⟩
  | @later _ _ _ _ _ earlier _ next _ advanced served _ inductionHypothesis =>
      obtain ⟨waiting, reaches⟩ := inductionHypothesis
      rw [advanced]
      have toAnswer := Machine.reaches_of_serve served (.construct earlier next :: pending)
      exact ⟨waiting, toAnswer.trans (.head rfl reaches)⟩

/-- The run comes from the moment to a step whose script is the origin of the reason. -/
def Moment.HasOrigin (host : Host) (limit : Nat) (reason : Unwind) (moment : Moment) : Prop :=
  ∃ fuel step script before after pending,
    Reaches host limit moment ⟨.serving (.finish step), pending, before⟩ ∧
      Machine.stepScript host step = .inr script ∧
      script.Originates (Machine.serve host limit fuel) reason before after

theorem Moment.HasOrigin.head
    {reason : Unwind}
    {moment later : Moment}
    (origin : later.HasOrigin host limit reason)
    (reaches : Reaches host limit moment later) :
    moment.HasOrigin host limit reason := by
  obtain ⟨fuel, step, script, before, after, pending, toStep, amounts, originates⟩ := origin
  exact ⟨fuel, step, script, before, after, pending, reaches.trans toStep, amounts, originates⟩

/-- A script that unwinds is an origin of the reason, or has made a request that ended with it. -/
theorem Script.originates_or_heard
    {serve : Request → Run Value}
    {script : Script Step}
    {reason : Unwind}
    {last : Machine}
    (ran : script.run serve Run.done machine = some (.error reason, last)) :
    script.Originates serve reason machine last ∨
      ∃ request asked after,
        script.Asks serve machine request asked ∧
          serve request asked = some (.error reason, after) := by
  by_cases heard :
      ∃ request asked after,
        script.Asks serve machine request asked ∧
          serve request asked = some (.error reason, after)
  · exact .inr heard
  · exact .inl ⟨ran, fun asks ended => heard ⟨_, _, _, asks, ended⟩⟩

/--
What ends a run has an origin in it, unless it is the limit on nesting.  The induction is on the
fuel; the origin lies in the script that is begun, or in a request of it that ended with the reason.
-/
theorem Machine.hasOrigin
    {request : Request}
    {last : Machine}
    {reason : Unwind}
    (served : serve host limit fuel request machine = some (.error reason, last))
    (notLimit : reason ≠ .fault (.evaluation (.depthLimit limit)))
    (pending : List Pending) :
    (⟨.serving request, pending, machine⟩ : Moment).HasOrigin host limit reason := by
  induction fuel generalizing request machine last pending with
  | zero => cases served
  | succ fuel inductionHypothesis =>
      cases serving_of_serve served with
      | refused => exact (notLimit rfl).elim
      | nested opens free inside =>
          refine .head ?_ (.step (next?_of_opens? opens pending machine))
          rw [ofOpening_of_free free]
          exact inductionHypothesis inside (.level :: pending)
      | unwound amounts ran =>
          rcases Script.originates_or_heard ran with
            originates | ⟨request, asked, after, asks, ended⟩
          · exact ⟨fuel, _, _, machine, last, pending, .refl _, amounts, originates⟩
          · obtain ⟨waiting, toRequest⟩ := asks.reaches pending
            exact (inductionHypothesis ended waiting).head
              (.head (next?_of_script amounts pending machine) toRequest)
      | followed amounts ran following =>
          have scriptRuns := reaches_of_run (isServedByMoments host limit fuel) _ pending ran
          exact (inductionHypothesis following pending).head
            (.head (next?_of_script amounts pending machine) scriptRuns)

end SmallScheme
