import SmallScheme.Proofs.Moment.Life

namespace SmallScheme

/-!
# How deep loops nest

Steps in tail position are carried out by a loop, one after the other.  A level of nesting starts a
loop of its own, and levels are counted and limited.  The forms of a rebinding of parameters start a
loop as well, for the parameters have to be restored behind it, but no level is opened for it: what
the limit bounds is the number of levels, not the number of loops.
-/

open Script

namespace Pending

/-- The loop of a level. -/
def isLevel : Pending → Bool
  | .level => true
  | .construct _ _ => false

/-- The loop of the remaining steps that a construct carries out in place. -/
def isBody : Pending → Bool
  | .level => false
  | .construct request _ => request matches .finish _

end Pending

namespace Moment

/-- The number of loops that are in progress, one inside the other. -/
def loops (moment : Moment) : Nat :=
  moment.pending.countP fun waiting => waiting.isLevel || waiting.isBody

/-- The number of loops among them that no level has been opened for. -/
def bodies (moment : Moment) : Nat :=
  moment.pending.countP Pending.isBody

end Moment

variable
  {catches : Prop}
  {base outer inner : Surroundings}
  {host : Host}
  {limit : Nat}
  {request : Request}
  {pending : List Pending}

/-- The depth counts the levels. -/
theorem Surrounded.depth_eq
    (surrounded : Surrounded catches base pending inner) :
    inner.depth = base.depth + pending.countP Pending.isLevel := by
  induction surrounded with
  | bare =>
      rfl
  | @within waiting rest outer inner encloses _ inductionHypothesis =>
      cases waiting with
      | level =>
          have opened : inner.depth = outer.depth + 1 := by
            cases encloses
            rfl
          rw [opened, inductionHypothesis, List.countP_cons_of_pos rfl, Nat.add_assoc]
      | construct request next =>
          rw [← encloses.depth_eq, inductionHypothesis,
            List.countP_cons_of_neg (by simp [Pending.isLevel])]

/-- Each loop is that of a level or that of a body. -/
theorem Moment.loops_eq
    (moment : Moment) :
    moment.loops = moment.pending.countP Pending.isLevel + moment.bodies := by
  unfold loops bodies
  induction moment.pending with
  | nil =>
      rfl
  | cons waiting rest inductionHypothesis =>
      simp only [List.countP_cons, inductionHypothesis]
      cases waiting with
      | level =>
          simp only [Pending.isLevel, Pending.isBody, Bool.or_false, if_true, Bool.false_eq_true,
            if_false]
          omega
      | construct request next =>
          simp only [Pending.isLevel, Bool.false_or, Bool.false_eq_true, if_false]
          omega

/-- Remaining steps are carried out in place only where parameters are restored afterwards. -/
theorem Pending.Encloses.restores
    {step : Step}
    {next : Except Unwind Value → Script Step}
    (encloses : (Pending.construct (.finish step) next).Encloses catches outer inner) :
    ∃ previous, next = Special.restore previous := by
  cases encloses with
  | ordinary _ nested _ =>
      exact nested.elim
  | rebound _ nested _ =>
      exact nested.elim
  | finishing =>
      exact ⟨_, rfl⟩

theorem Surrounded.restores
    (surrounded : Surrounded catches base pending inner)
    {step : Step}
    {next : Except Unwind Value → Script Step}
    (member : .construct (.finish step) next ∈ pending) :
    ∃ previous, next = Special.restore previous := by
  induction surrounded with
  | bare =>
      cases member
  | within encloses _ inductionHypothesis =>
      rcases List.mem_cons.mp member with isHead | inRest
      · subst isHead
        exact encloses.restores
      · exact inductionHypothesis inRest

namespace Moment

/-- A level is opened only where the limit allows it, and nothing else adds to the depth. -/
theorem Orderly.depth_le
    (restrained : host.Restrained catches)
    {moment later : Moment}
    (orderly : moment.Orderly catches base)
    (bounded : moment.machine.depth ≤ limit)
    (next : moment.next? host limit = some later) :
    later.machine.depth ≤ limit := by
  cases orderly.moves restrained next with
  | opening step =>
      unfold ofOpening
      split
      case isTrue => exact bounded
      case isFalse free =>
        exact Nat.lt_of_not_le free
  | finishing _ | waiting _ =>
      exact bounded
  | closing =>
      exact Nat.le_trans (Nat.sub_le _ _) bounded
  | settling surrounded _ sameDepth settles =>
      cases settles with
      | @ended result machine same _ _ =>
          have depth : machine.depth = _ := congrArg Surroundings.depth same
          rw [ofProgress_ended_machine, depth, sameDepth]
          exact bounded
      | @asked request resume machine encloses _ _ =>
          have depth : _ = machine.depth := encloses.depth_eq
          exact depth ▸ sameDepth ▸ bounded

theorem Reaches.depth_le
    (restrained : host.Restrained catches)
    {moment later : Moment}
    (reaches : Reaches host limit moment later)
    (orderly : moment.Orderly catches base)
    (bounded : moment.machine.depth ≤ limit) :
    later.machine.depth ≤ limit := by
  induction reaches with
  | refl =>
      exact bounded
  | tail reachesBetween next inductionHypothesis =>
      have orderlyBetween := (Reaches.orderly restrained reachesBetween orderly).1
      exact orderlyBetween.depth_le restrained inductionHypothesis next

end Moment

/--
The loops in progress are those of the levels and those of the bodies that parameters are rebound
for.  The limit bounds the levels: a request that would open one more is refused.  So the loops are
within the limit exactly where the bodies fit beside the levels.
-/
theorem levels_are_limited_and_bodies_are_not
    (restrained : host.Restrained True)
    {machine : Machine}
    {moment : Moment}
    (nested : request.IsNested)
    (idle : machine.Idle)
    (reaches : Moment.Reaches host limit ⟨.serving request, [], machine⟩ moment) :
    moment.loops = moment.machine.depth + moment.bodies ∧
    moment.machine.depth ≤ limit ∧
    (moment.loops ≤ limit ↔ moment.bodies ≤ limit - moment.machine.depth) ∧
    (∀ step resume,
      .construct (.finish step) resume ∈ moment.pending →
      ∃ previous, resume = Special.restore previous) ∧
    (∀ inside : Request,
      moment.activity = .serving inside →
      inside.IsNested →
      moment.machine.depth = limit →
      moment.next? host limit =
        some
          ⟨.returning (.error (.fault (.evaluation (.depthLimit limit)))), moment.pending,
            moment.machine⟩) := by
  have occurs : moment.Occurs True :=
    (Moment.Occurs.of_idle nested idle).reaching restrained reaches
  have surrounded := occurs.orderly.surrounded
  have depth : moment.machine.depth = moment.pending.countP Pending.isLevel :=
    surrounded.depth_eq.trans (Nat.zero_add _)
  have loops : moment.loops = moment.machine.depth + moment.bodies := by
    rw [moment.loops_eq, depth]
  have bounded : moment.machine.depth ≤ limit := by
    have begins : Moment.Orderly True machine.surroundings ⟨.serving request, [], machine⟩ :=
      .serving idle.numbered request
    have none : machine.depth = 0 := congrArg Surroundings.depth idle
    exact Moment.Reaches.depth_le restrained reaches begins (none ▸ Nat.zero_le limit)
  refine ⟨loops, bounded, ?_, ?_, ?_⟩
  · rw [loops]
    omega
  · intro step resume member
    exact surrounded.restores member
  · intro inside serves nestedInside full
    obtain ⟨activity, pending, machine⟩ := moment
    dsimp only at serves full
    subst serves
    cases inside with
    | evaluate scope form =>
        simp [Moment.next?, Moment.ofOpening, full]
    | call callee operands =>
        simp [Moment.next?, Moment.ofOpening, full]
    | finish _ | reach _ _ | endless =>
        exact nestedInside.elim

/-- Three rebindings, one directly in the body of the other. -/
def rebindingsInBodies : Moment :=
  .beginning
    [("parameterize", .special .rebinding)]
    "(parameterize () (parameterize () (parameterize () 5)))"

/-- Where the innermost form is evaluated there are two levels and two bodies. -/
theorem levels_and_bodies_of_rebindings :
    ∃ moment,
      Moment.Reaches Host.absent 8 rebindingsInBodies moment ∧
        moment.machine.depth = 2 ∧
        moment.bodies = 2 ∧
        moment.loops = 2 + 2 ∧
        moment.loops ≤ 8 := by
  have restrained : Host.absent.Restrained True := Host.restrained_absent True
  have shape :
      (rebindingsInBodies.after? Host.absent 8 6).any fun moment =>
        moment.machine.depth == 2 && moment.bodies == 2 := by
    decide +kernel
  simp only [Option.any_eq_true, Bool.and_eq_true, beq_iff_eq] at shape
  obtain ⟨moment, counted, depth, bodies⟩ := shape
  have reachesMoment : Moment.Reaches Host.absent 8 rebindingsInBodies moment :=
    .of_after? counted
  obtain ⟨request, machine, nested, idle, same⟩ : ∃ request machine,
      request.IsNested ∧
        machine.Idle ∧
        rebindingsInBodies = ⟨.serving request, [], machine⟩ :=
    Moment.beginning_eq _ _
  have reaches : Moment.Reaches Host.absent 8 ⟨.serving request, [], machine⟩ moment := by
    rw [← same]
    exact reachesMoment
  obtain ⟨loops, _, within, _⟩ :=
    levels_are_limited_and_bodies_are_not restrained nested idle reaches
  rw [depth, bodies] at loops
  refine ⟨moment, reachesMoment, depth, bodies, loops, within.mpr ?_⟩
  rw [depth, bodies]
  decide

/-- Under a limit of two the same program nests four loops, and it is not refused. -/
theorem loops_exceed_limit :
    ∃ moment inside value machine,
      rebindingsInBodies.Reaches Host.absent 2 moment ∧
        moment.activity = .serving inside ∧
        2 < moment.loops ∧
        moment.Reaches Host.absent 2 ⟨.returning (.ok value), [], machine⟩ := by
  have shape :
      (rebindingsInBodies.after? Host.absent 2 6).any fun moment =>
        moment.activity.request?.isSome &&
          moment.loops == 4 &&
          (moment.after? Host.absent 2 12).any fun last =>
            last.activity.value?.isSome && last.pending.isEmpty := by
    decide +kernel
  simp only [Option.any_eq_true, Bool.and_eq_true, beq_iff_eq, List.isEmpty_iff,
    Option.isSome_iff_exists] at shape
  obtain ⟨moment, counted, ⟨⟨inside, serves⟩, loops⟩, ⟨activity, pending, machine⟩, countedOn,
    ⟨value, ends⟩, isLast⟩ := shape
  dsimp only at ends isLast
  subst isLast
  obtain rfl := Activity.eq_of_value? ends
  have exceeds : 2 < moment.loops := by
    rw [loops]
    decide
  exact ⟨moment, inside, value, machine, .of_after? counted, Activity.eq_of_request? serves,
    exceeds, .of_after? countedOn⟩

end SmallScheme
