import SmallScheme.Proofs.Moment.Guarded

namespace SmallScheme

/-!
# How a wind is wound up

The last procedure of a wind is called where the middle one has ended, whichever way it has ended.
The call is not refused a level, for the first procedure has been called at the same depth and has
not been refused one.  Together with the nesting of the events of a run this tells that each wind
whose first procedure has returned is wound up once, after all that is inside it and before all that
is outside.
-/

open Script

namespace Pending

/-- No construct is waiting right here for something that opens a level. -/
def Vacant (pending : List Pending) : Prop :=
  ∀ request next below, pending = .construct request next :: below → ¬request.IsNested

/--
What waits, waits at a depth that is reached by the levels further out.  Between two constructs that
wait there is a level or the loop of remaining steps, and the middle procedure of a wind waits where
one more level may be opened.
-/
inductive Seated (limit : Nat) : Nat → List Pending → Prop
  | bare (depth : Nat) :
      Seated limit depth []
  | level {depth : Nat} {below : List Pending} :
      depth < limit →
      Seated limit depth below →
      Seated limit (depth + 1) (.level :: below)
  | construct
      {depth : Nat}
      {request : Request}
      {next : Except Unwind Value → Script Step}
      {below : List Pending} :
      Vacant below →
      ((Pending.construct request next).IsMiddle → depth < limit) →
      Seated limit depth below →
      Seated limit depth (.construct request next :: below)

end Pending

namespace Moment

/-- What waits is seated, and a value is returned only to what has opened a level. -/
structure Seated (limit : Nat) (moment : Moment) : Prop where
  pending : Pending.Seated limit moment.machine.depth moment.pending
  inside :
    ∀ request,
      moment.activity = .serving request →
      ¬request.IsNested →
      Pending.Vacant moment.pending
  returned :
    ∀ value,
      moment.activity = .returning (.ok value) →
      Pending.Vacant moment.pending ∨ moment.machine.depth < limit

end Moment

variable
  {host : Host}
  {limit : Nat}
  {moment later : Moment}
  {pending : List Pending}

theorem Pending.vacant_level
    (below : List Pending) :
    Vacant (.level :: below) :=
  fun _ _ _ impossible => nomatch impossible

namespace Pending.Seated

variable
  {depth : Nat}
  {below : List Pending}

theorem of_level
    (seated : Seated limit depth (.level :: below)) :
    ∃ outer, depth = outer + 1 ∧ outer < limit ∧ Seated limit outer below := by
  cases seated with
  | level room seatedBelow =>
      exact ⟨_, rfl, room, seatedBelow⟩

theorem of_construct
    {request : Request}
    {next : Except Unwind Value → Script Step}
    (seated : Seated limit depth (.construct request next :: below)) :
    Vacant below ∧
      ((Pending.construct request next).IsMiddle → depth < limit) ∧
      Seated limit depth below := by
  cases seated with
  | construct vacant room seatedBelow =>
      exact ⟨vacant, room, seatedBelow⟩

end Pending.Seated

/-- A script does not open levels by itself. -/
theorem Script.advance_depth
    (script : Script Step)
    (machine : Machine)
    (pending : List Pending) :
    (Moment.ofProgress pending (script.advance machine)).machine.depth = machine.depth := by
  induction script generalizing machine with
  | done answer =>
      rfl
  | unwind reason =>
      rfl
  | viewing look next inductionHypothesis =>
      exact inductionHypothesis _ machine
  | acting action next inductionHypothesis =>
      exact inductionHypothesis _ _
  | switching change next inductionHypothesis =>
      exact inductionHypothesis _ _
  | asking request next =>
      rfl
  | deferring step next inductionHypothesis =>
      exact inductionHypothesis (.ok step) machine

namespace Moment

private theorem seated_ofProgress
    {machine : Machine}
    {script : Script Step}
    (vacant : Pending.Vacant pending)
    (seated : Pending.Seated limit machine.depth pending)
    (keeps : moment.Keeps (ofProgress pending (script.advance machine)))
    (room : ∀ thunk after below, moment.HasBegun thunk after below → machine.depth < limit) :
    (ofProgress pending (script.advance machine)).Seated limit := by
  have depth := script.advance_depth machine pending
  cases progress : script.advance machine with
  | ended result last =>
      rw [progress] at depth
      rw [ofProgress_ended_machine] at depth
      cases result with
      | ok step =>
          exact ⟨depth ▸ seated, fun _ _ _ => vacant, fun _ impossible => nomatch impossible⟩
      | error reason =>
          refine ⟨depth ▸ seated, ?_, ?_⟩
          · exact fun _ impossible => nomatch impossible
          · exact fun _ impossible => nomatch impossible
  | asked request next last =>
      rw [progress] at depth keeps
      have sameDepth : last.depth = machine.depth := depth
      have roomForMiddle : (Pending.construct request next).IsMiddle → last.depth < limit := by
        rintro ⟨thunk, after, same⟩
        obtain ⟨sameRequest, _⟩ := Pending.construct.inj same
        have enters :
            (ofProgress pending (.asked request next last)).Enters (.wind thunk after pending) :=
          ⟨congrArg Activity.serving sameRequest, congrArg (· :: pending) same⟩
        rw [sameDepth]
        exact room _ _ _ (keeps.begun _ _ _ enters)
      refine ⟨?_, ?_, fun _ impossible => nomatch impossible⟩
      · exact .construct vacant roomForMiddle (sameDepth ▸ seated)
      · intro inside serves notNested other resume below same
        obtain ⟨sameFrame, _⟩ := List.cons.inj same
        obtain ⟨rfl, _⟩ := Pending.construct.inj sameFrame
        cases serves
        exact notNested

private theorem seated_ofOpening
    {machine : Machine}
    (seated : Pending.Seated limit machine.depth pending)
    (step : Step) :
    (ofOpening limit step pending machine).Seated limit := by
  unfold ofOpening
  split
  case isTrue =>
    refine ⟨seated, ?_, ?_⟩
    · exact fun _ impossible => nomatch impossible
    · exact fun _ impossible => nomatch impossible
  case isFalse free =>
    refine ⟨.level (Nat.lt_of_not_le free) seated, ?_, fun _ impossible => nomatch impossible⟩
    exact fun _ _ _ => Pending.vacant_level pending

/-- What is seated stays seated.  The cases are those of a step. -/
theorem Seated.next
    (seated : moment.Seated limit)
    (keeps : moment.Keeps later)
    (next : moment.next? host limit = some later) :
    later.Seated limit := by
  obtain ⟨seatedPending, inside, returned⟩ := seated
  cases steps_of_next? next with
  | evaluating =>
      exact seated_ofOpening seatedPending _
  | calling =>
      exact seated_ofOpening seatedPending _
  | finishing | reaching =>
      have vacant := inside _ rfl id
      exact ⟨seatedPending, fun _ impossible => (nomatch impossible), fun _ _ => .inl vacant⟩
  | waiting =>
      exact ⟨seatedPending, inside, returned⟩
  | @beginning step script pending machine _ =>
      refine seated_ofProgress (inside _ rfl id) seatedPending keeps ?_
      rintro thunk after below ⟨_, _, impossible, _⟩
      cases impossible
  | @closing result below machine =>
      obtain ⟨outer, depth, room, seatedBelow⟩ := seatedPending.of_level
      have closed : machine.depth - 1 = outer := by
        dsimp only at depth
        omega
      refine ⟨?_, fun _ impossible => (nomatch impossible), fun _ _ => .inr ?_⟩
      · exact closed ▸ seatedBelow
      · exact closed ▸ room
  | @resuming result request resume below machine =>
      obtain ⟨vacant, _, seatedBelow⟩ := seatedPending.of_construct
      refine seated_ofProgress vacant seatedBelow keeps ?_
      -- The first procedure has returned its value through a level of its own.
      rintro thunk after outside ⟨before, value, returns, waits⟩
      rcases returned value returns with vacantHere | room
      · exact (vacantHere _ _ _ waits trivial).elim
      · exact room

/-- A run with nothing around it begins guarded and seated. -/
theorem seated_serving
    (request : Request)
    (machine : Machine) :
    Moment.Seated limit ⟨.serving request, [], machine⟩ where
  pending := .bare machine.depth
  inside _ _ _ _ _ _ impossible := nomatch impossible
  returned _ impossible := nomatch impossible

theorem guarded_serving
    (request : Request)
    (machine : Machine) :
    Moment.Guarded ⟨.serving request, [], machine⟩ :=
  fun _ member => nomatch member

theorem Reaches.seated
    (guardedHost : host.Guarded)
    (reaches : Reaches host limit moment later)
    (guarded : moment.Guarded)
    (seated : moment.Seated limit) :
    later.Seated limit := by
  induction reaches with
  | refl =>
      exact seated
  | tail reachesBetween next inductionHypothesis =>
      have guardedBetween := Reaches.guarded guardedHost reachesBetween guarded
      exact inductionHypothesis.next (guardedBetween.keeps guardedHost next) next

/-- The last procedure of a wind is called, and a level is opened for the call. -/
theorem Seated.winds_up
    (seated : moment.Seated limit)
    {thunk after : Value}
    {below : List Pending}
    {result : Except Unwind Value}
    (leaves : moment.Leaves (.wind thunk after below) result)
    (next : moment.next? host limit = some later) :
    later.activity = .serving (.call after []) ∧
      later.next? host limit =
        some
          ⟨.serving (.finish (.apply after [])), .level :: later.pending,
            { later.machine with depth := later.machine.depth + 1 }⟩ := by
  obtain ⟨activity, pending, machine⟩ := moment
  obtain ⟨returns, waits⟩ := leaves
  dsimp only at returns waits
  subst returns waits
  obtain rfl := Option.some.inj next
  obtain ⟨_, room, _⟩ := seated.pending.of_construct
  have free : ¬limit ≤ machine.depth := Nat.not_le_of_lt (room ⟨thunk, after, rfl⟩)
  exact ⟨rfl, congrArg some (ofOpening_of_free free _ _)⟩

end Moment

/--
The events of every run nest: what has been entered and not left is what waits, each enclosure is
left at most once, and once if the run is over, and what is left has been entered once, with all
that was entered inside it left before.  A wind is entered exactly where its first procedure has
returned a value.  Where the thunk of an enclosure has ended, in whatever way, a wind calls its last
procedure, which is not refused a level, and a handler is called if there is a condition for it;
that is the last call that the construct makes.
-/
theorem every_wind_is_wound_up_once
    (guardedHost : host.Guarded)
    {request : Request}
    {machine : Machine}
    (reaches : Moment.Reaches host limit ⟨.serving request, [], machine⟩ moment) :
    (∃ events, Moment.Traces host limit ⟨.serving request, [], machine⟩ events moment) ∧
    (∀ events : List Event,
      Moment.Traces host limit ⟨.serving request, [], machine⟩ events moment →
      (∃ around,
        Event.Unfinished events around ∧
          Enclosure.Around around moment.pending) ∧
      (moment.pending = [] → Event.Balanced events) ∧
      (∀ (earlier : List Event) (enclosure : Enclosure) (later : List Event),
        events = earlier ++ .entered enclosure :: later →
        (∀ first second : List Event,
          Event.LeftAfter enclosure later first →
          Event.LeftAfter enclosure later second →
          first = second) ∧
        (moment.pending = [] → ∃ inside, Event.LeftAfter enclosure later inside)) ∧
      (∀ (earlier : List Event) (enclosure : Enclosure) (result : Except Unwind Value)
          (later : List Event),
        events = earlier ++ .left enclosure result :: later →
        ∃ inside,
          Event.EnteredBefore enclosure earlier inside ∧
          (∀ other, Event.EnteredBefore enclosure earlier other → other = inside) ∧
          ∀ (before : List Event) (innermost : Enclosure) (after : List Event),
            inside = before ++ .entered innermost :: after →
            ∃ between, Event.LeftAfter innermost after between)) ∧
    (∀ later : Moment,
      moment.next? host limit = some later →
      (∀ (thunk after : Value) (below : List Pending),
        later.Enters (.wind thunk after below) ↔ moment.HasBegun thunk after below) ∧
      (∀ (reason : Unwind) (before thunk after : Value) (below : List Pending),
        moment.activity = .returning (.error reason) →
        moment.pending = .first before thunk after :: below →
        later = ⟨.returning (.error reason), below, moment.machine⟩) ∧
      (∀ (enclosure : Enclosure) (result : Except Unwind Value),
        moment.Leaves enclosure result →
        later.Responds enclosure result) ∧
      (∀ (thunk after : Value) (below : List Pending) (result : Except Unwind Value),
        moment.Leaves (.wind thunk after below) result →
        later.activity = .serving (.call after []) ∧
        later.next? host limit =
          some
            ⟨.serving (.finish (.apply after [])), .level :: later.pending,
              { later.machine with depth := later.machine.depth + 1 }⟩)) := by
  have guarded : moment.Guarded := reaches.guarded guardedHost (Moment.guarded_serving _ _)
  have seated : moment.Seated limit :=
    reaches.seated guardedHost (Moment.guarded_serving _ _) (Moment.seated_serving _ _)
  refine ⟨reaches.exists_traces, fun events traces => ⟨?_, ?_, ?_, ?_⟩, fun later next => ?_⟩
  · exact traces.unfinished rfl
  · exact traces.balanced rfl
  · rintro earlier enclosure later rfl
    refine ⟨fun _ _ leftFirst leftSecond => leftFirst.unique leftSecond, fun isOver => ?_⟩
    exact (traces.balanced rfl isOver).exists_left
  · rintro earlier enclosure result later rfl
    obtain ⟨around, unfinished, _⟩ := traces.unfinished rfl
    obtain ⟨inside, entered, unique⟩ := unfinished.entered_once
    refine ⟨inside, entered, unique, ?_⟩
    rintro before innermost after rfl
    exact entered.1.exists_left
  · refine ⟨fun thunk after below => ?_, ?_, ?_, ?_⟩
    · have keeps := guarded.keeps guardedHost next
      exact ⟨keeps.begun thunk after below, fun begun => begun.enters next⟩
    · intro reason before thunk after below returns waits
      obtain ⟨activity, pending, machine⟩ := moment
      dsimp only at returns waits
      subst returns waits
      exact (Option.some.inj next).symm
    · exact fun _ _ leaves => leaves.responds next
    · exact fun _ _ _ _ leaves => seated.winds_up leaves next

/-- A thunk with a handler raises an integer inside a wind, and the handler is called for it. -/
def raisesInsideWind : Moment :=
  .beginning
    [("with-exception-handler", .special .handling),
      ("dynamic-wind", .special .wind),
      ("raise", .primitive (.signalling .raise)),
      ("lambda", .special .procedure),
      ("if", .special .conditional),
      ("=", .primitive (.comparison .equal))]
    ("(with-exception-handler (lambda (e) (if (= e 1) 3)) " ++
      "(lambda () (dynamic-wind (lambda () 4) (lambda () (raise 2)) (lambda () 5))))")

namespace Pending

/-- What waits makes a request when an escape passes. -/
def asksOfEscape : Pending → Bool
  | .level => false
  | .construct _ next =>
      match (next (.error (.escape 0 .unspecified))).advance default with
      | .asked _ _ _ => true
      | .ended _ _ => false

/-- Of all that waits only a wind makes a request when an escape passes. -/
theorem Encloses.isMiddle
    {waiting : Pending}
    {outer inner : Surroundings}
    (encloses : waiting.Encloses False outer inner)
    (asks : waiting.asksOfEscape) :
    waiting.IsMiddle := by
  have steady := Unwind.steady_escape 0 .unspecified
  have ends
      {request : Request}
      {next : Except Unwind Value → Script Step}
      {ending : Except Unwind Step}
      {last : Machine}
      (ended : (next (.error (.escape 0 .unspecified))).advance default = .ended ending last) :
      ¬(Pending.construct request next).asksOfEscape := by
    simp [asksOfEscape, ended]
  cases encloses with
  | level =>
      cases asks
  | ordinary _ _ resumes =>
      rcases resumes.reason with passes | ⟨impossible, _⟩
      · exact (ends ((passes _).advance steady _) asks).elim
      · exact impossible.elim
  | receiver _ =>
      exact (ends (Progress.Settles.advance_leaveReceiver _ _ _) asks).elim
  | thunk =>
      exact (ends rfl asks).elim
  | handler =>
      exact (ends (Progress.Settles.advance_leaveHandler _ _ _) asks).elim
  | middle =>
      exact ⟨_, _, rfl⟩
  | last _ =>
      exact (ends rfl asks).elim
  | rebound _ _ resumes =>
      rcases resumes.reason with passes | ⟨impossible, _⟩
      · obtain ⟨_, ended⟩ := (passes _).advance_restore steady _ default
        exact (ends ended asks).elim
      · exact impossible.elim
  | finishing =>
      exact (ends (Progress.Settles.advance_restore _ _ _) asks).elim

end Pending

/-- What is raised leaves the wind, which has been entered, and its last procedure is called. -/
theorem wind_is_wound_up_for_a_raise :
    ∃ (request : Request) (machine last : Machine) (moment later : Moment)
        (thunk after value : Value) (below : List Pending) (reason : Unwind)
        (earlier inside more : List Event),
      raisesInsideWind = ⟨.serving request, [], machine⟩ ∧
        Moment.Reaches Host.absent 8 ⟨.serving request, [], machine⟩ moment ∧
        moment.next? Host.absent 8 = some later ∧
        moment.Leaves (.wind thunk after below) (.error reason) ∧
        later.activity = .serving (.call after []) ∧
        Moment.Traces Host.absent 8
          ⟨.serving request, [], machine⟩
          (earlier ++ .left (.wind thunk after below) (.error reason) :: more)
          ⟨.returning (.ok value), [], last⟩ ∧
        Event.EnteredBefore (.wind thunk after below) earlier inside := by
  have restrained : Host.absent.Restrained False := Host.restrained_absent False
  have guardedHost : Host.absent.Guarded := restrained.guarded
  have shape :
      (raisesInsideWind.after? Host.absent 8 50).any fun moment =>
        moment.activity.reason?.isSome &&
          moment.pending.head?.any Pending.asksOfEscape &&
          (moment.next? Host.absent 8).any fun later =>
            (later.after? Host.absent 8 35).any fun last =>
              last.activity.value?.isSome && last.pending.isEmpty := by
    decide +kernel
  simp only [Option.any_eq_true, Bool.and_eq_true, List.isEmpty_iff, Option.isSome_iff_exists]
    at shape
  obtain ⟨moment, counted, ⟨⟨reason, raises⟩, waiting, isFirst, asks⟩, later, next,
    ⟨lastActivity, lastPending, last⟩, countedOn, ⟨value, ends⟩, isLast⟩ := shape
  dsimp only at ends isLast
  subst isLast
  obtain rfl := Activity.eq_of_value? ends
  have returns := Activity.eq_of_reason? raises
  have reachesMoment : raisesInsideWind.Reaches Host.absent 8 moment := .of_after? counted
  have reachesOn : later.Reaches Host.absent 8 ⟨.returning (.ok value), [], last⟩ :=
    .of_after? countedOn
  have begins : raisesInsideWind.Occurs False := .beginning _ _
  have surrounded := (begins.reaching restrained reachesMoment).orderly.surrounded
  obtain ⟨request, machine, _, _, same⟩ : ∃ request machine,
      request.IsNested ∧
        machine.Idle ∧
        raisesInsideWind = ⟨.serving request, [], machine⟩ :=
    Moment.beginning_eq _ _
  rw [same] at reachesMoment
  obtain ⟨below, waits⟩ : ∃ below, moment.pending = waiting :: below := by
    obtain ⟨activity, pending, here⟩ := moment
    cases pending with
    | nil =>
        cases isFirst
    | cons first below =>
        obtain rfl := Option.some.inj isFirst
        exact ⟨below, rfl⟩
  rw [waits] at surrounded
  obtain ⟨thunk, after, rfl⟩ : waiting.IsMiddle := by
    cases surrounded with
    | within encloses _ =>
        exact encloses.isMiddle asks
  have leaves : moment.Leaves (.wind thunk after below) (.error reason) := ⟨returns, waits⟩
  obtain ⟨_, _, steps⟩ := every_wind_is_wound_up_once guardedHost reachesMoment
  obtain ⟨_, _, _, windsUp⟩ := steps later next
  obtain ⟨earlier, traces⟩ := reachesMoment.exists_traces
  obtain ⟨more, tracesOn⟩ := (traces.next next (.leaving leaves)).extend reachesOn
  rw [List.append_assoc] at tracesOn
  have reachesLast := reachesMoment.trans (.head next reachesOn)
  obtain ⟨_, nests, _⟩ := every_wind_is_wound_up_once guardedHost reachesLast
  obtain ⟨_, _, _, leftOnce⟩ := nests _ tracesOn
  obtain ⟨inside, entered, _⟩ := leftOnce earlier _ _ more rfl
  exact ⟨request, machine, last, moment, later, thunk, after, value, below, reason, earlier, inside,
    more, same, reachesMoment, next, leaves, (windsUp _ _ _ _ leaves).1, tracesOn, entered⟩

end SmallScheme
