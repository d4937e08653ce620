import SmallScheme.Proofs.Moment.Orderly
import SmallScheme.Session.Basic

namespace SmallScheme

/-!
# The life of a machine

A machine serves one run after another, and whatever a program makes in one run it may use in all
later ones.  The moments of all these runs make up one life.  Every one of them is orderly, since a
run gives the machine back as it took it: with no handler, no running escape and no open level.
-/

/-- Nothing surrounds the next evaluation on the machine. -/
def Machine.Idle (machine : Machine) : Prop :=
  machine.surroundings = ⟨[], [], 0⟩

/--
Between two runs the store may change, as values are loaded and names are defined, and what still
surrounds the next evaluation may be forgotten.
-/
structure Machine.Rests (before after : Machine) : Prop where
  lastEscape : after.context.lastEscape = before.context.lastEscape
  surroundings : after.surroundings = before.surroundings ∨ after.Idle

namespace Moment

/--
One moment comes right after another, in the same run or at the beginning of the next one.  The
host may be another one from run to run: the library is evaluated before a host takes part.
-/
inductive Follows (catches : Prop) : Moment → Moment → Prop
  | within {host : Host} {limit : Nat} {moment later : Moment} :
      host.Restrained catches →
      moment.next? host limit = some later →
      Follows catches moment later
  | again
      {result : Except Unwind Value}
      {request : Request}
      {before after : Machine} :
      request.IsNested →
      before.Rests after →
      Follows catches ⟨.returning result, [], before⟩ ⟨.serving request, [], after⟩

/-- A moment in the life of a machine comes at another one or after it. -/
def Precedes (catches : Prop) : Moment → Moment → Prop :=
  Relation.ReflTransGen (Follows catches)

/-- A moment in the life of a machine that begins with nothing around it. -/
def Occurs (catches : Prop) (moment : Moment) : Prop :=
  ∃ request machine,
    request.IsNested ∧
      machine.Idle ∧
      Precedes catches ⟨.serving request, [], machine⟩ moment

/-- The moment at which a program is about to be evaluated in a scope with nothing but bindings. -/
def beginning (bindings : List (String × Value)) (source : String) : Moment :=
  let scope : Scope := ⟨0, []⟩
  let store := (Store.empty.newFrame ⟨bindings, []⟩).2
  let forms :=
    match @Reader.readAll .plain source with
    | .ok forms => forms
    | .error _ => []
  let (program, store) := store.load (.program forms)
  ⟨.serving (.evaluate scope program), [], ⟨store, ⟨[], [], 0⟩, 0⟩⟩

end Moment

variable
  {catches : Prop}
  {base : Surroundings}
  {host : Host}
  {limit fuel : Nat}
  {request : Request}

/-- Where nothing waits, what surrounds the moment is the base. -/
theorem Surrounded.eq_base
    {inner : Surroundings}
    (surrounded : Surrounded catches base [] inner) :
    inner = base := by
  cases surrounded
  rfl

/-- No escape is running on an idle machine. -/
theorem Machine.Idle.not_running
    {machine : Machine}
    (idle : machine.Idle)
    (identity : Nat) :
    identity ∉ machine.context.escapes := by
  have none : machine.context.escapes = [] := congrArg Surroundings.escapes idle
  rw [none]
  exact List.not_mem_nil

theorem Machine.Idle.numbered
    {machine : Machine}
    (idle : machine.Idle) :
    machine.context.Numbered :=
  fun identity running => (idle.not_running identity running).elim

namespace Machine.Rests

theorem refl
    (machine : Machine) :
    machine.Rests machine where
  lastEscape := rfl
  surroundings := .inl rfl

theorem trans
    {first second third : Machine}
    (earlier : first.Rests second)
    (later : second.Rests third) :
    first.Rests third where
  lastEscape := later.lastEscape.trans earlier.lastEscape
  surroundings := by
    rcases later.surroundings with same | idle
    · rcases earlier.surroundings with sameBefore | idleBefore
      · exact .inl (same.trans sameBefore)
      · exact .inr (same.trans idleBefore)
    · exact .inr idle

end Machine.Rests

namespace Moment

/-- A run begins orderly, with what surrounds it as its base. -/
theorem Orderly.serving
    {machine : Machine}
    (numbered : machine.context.Numbered)
    (request : Request) :
    (⟨.serving request, [], machine⟩ : Moment).Orderly catches machine.surroundings where
  surrounded := .bare
  numbered := numbered
  admits := by
    intro _ result returning
    cases returning

/-- The moments of a run are orderly, and all escapes that are made in it are new. -/
theorem Reaches.orderly
    (restrained : host.Restrained catches)
    {moment later : Moment}
    (reaches : Reaches host limit moment later)
    (orderly : moment.Orderly catches base) :
    later.Orderly catches base ∧
      moment.machine.context.Renewed later.machine.context := by
  induction reaches with
  | refl =>
      exact ⟨orderly, .refl _⟩
  | tail _ next inductionHypothesis =>
      obtain ⟨orderlyBetween, earlier⟩ := inductionHypothesis
      obtain ⟨orderlyLater, renewed⟩ := orderlyBetween.next restrained next
      exact ⟨orderlyLater, earlier.trans renewed⟩

/-- A run is part of the life of its machine. -/
theorem Reaches.precedes
    (restrained : host.Restrained catches)
    {moment later : Moment}
    (reaches : Reaches host limit moment later) :
    Precedes catches moment later :=
  Relation.ReflTransGen.mono (fun _ _ next => .within restrained next) _ _ reaches

/-- Once a life is orderly with nothing around it, it stays so. -/
theorem Follows.orderly
    {moment later : Moment}
    (follows : Follows catches moment later)
    (orderly : moment.Orderly catches ⟨[], [], 0⟩) :
    later.Orderly catches ⟨[], [], 0⟩ ∧
      moment.machine.context.Renewed later.machine.context := by
  cases follows with
  | within restrained next =>
      exact orderly.next restrained next
  | @again result request before after _ rests =>
      have idle : after.Idle := by
        rcases rests.surroundings with same | idle
        · exact same.trans orderly.surrounded.eq_base
        · exact idle
      refine ⟨idle ▸ Orderly.serving idle.numbered request, ?_, ?_⟩
      · exact Nat.le_of_eq rests.lastEscape.symm
      · intro identity running
        exact (idle.not_running identity running).elim

theorem Precedes.orderly
    {moment later : Moment}
    (precedes : Precedes catches moment later)
    (orderly : moment.Orderly catches ⟨[], [], 0⟩) :
    later.Orderly catches ⟨[], [], 0⟩ ∧
      moment.machine.context.Renewed later.machine.context := by
  induction precedes with
  | refl =>
      exact ⟨orderly, .refl _⟩
  | tail _ follows inductionHypothesis =>
      obtain ⟨orderlyBetween, earlier⟩ := inductionHypothesis
      obtain ⟨orderlyLater, renewed⟩ := follows.orderly orderlyBetween
      exact ⟨orderlyLater, earlier.trans renewed⟩

theorem beginning_eq
    (bindings : List (String × Value))
    (source : String) :
    ∃ request machine,
      request.IsNested ∧
        machine.Idle ∧
        beginning bindings source = ⟨.serving request, [], machine⟩ := by
  refine ⟨_, _, ?nested, ?idle, rfl⟩
  case nested =>
    exact trivial
  case idle =>
    rfl

namespace Occurs

variable {moment later : Moment}

/-- Every moment of a life is orderly. -/
theorem orderly
    (occurs : moment.Occurs catches) :
    moment.Orderly catches ⟨[], [], 0⟩ := by
  obtain ⟨request, machine, _, idle, precedes⟩ := occurs
  have begins : Orderly catches machine.surroundings ⟨.serving request, [], machine⟩ :=
    .serving idle.numbered request
  rw [idle] at begins
  exact (precedes.orderly begins).1

/-- A run begins on an idle machine. -/
theorem of_idle
    {machine : Machine}
    (nested : request.IsNested)
    (idle : machine.Idle) :
    Occurs catches ⟨.serving request, [], machine⟩ :=
  ⟨request, machine, nested, idle, .refl⟩

theorem beginning
    (bindings : List (String × Value))
    (source : String) :
    (beginning bindings source).Occurs catches := by
  obtain ⟨request, machine, nested, idle, same⟩ := beginning_eq bindings source
  rw [same]
  exact of_idle nested idle

theorem preceding
    (occurs : moment.Occurs catches)
    (precedes : Precedes catches moment later) :
    later.Occurs catches := by
  obtain ⟨request, machine, nested, idle, earlier⟩ := occurs
  exact ⟨request, machine, nested, idle, earlier.trans precedes⟩

theorem reaching
    (occurs : moment.Occurs catches)
    (restrained : host.Restrained catches)
    (reaches : Reaches host limit moment later) :
    later.Occurs catches :=
  occurs.preceding (reaches.precedes restrained)

end Occurs

end Moment

/-- What has been served on a machine leaves it orderly, within its former surroundings. -/
theorem Machine.orderly_of_serve
    (restrained : host.Restrained catches)
    {machine last : Machine}
    {result : Except Unwind Value}
    (numbered : machine.context.Numbered)
    (served : serve host limit fuel request machine = some (result, last)) :
    (⟨.returning result, [], last⟩ : Moment).Orderly catches machine.surroundings :=
  ((reaches_of_serve served []).orderly restrained (.serving numbered request)).1

/-- The special forms of the absent host fail. -/
theorem Host.restrained_absent
    (catches : Prop) :
    Host.absent.Restrained catches :=
  fun _ _ _ => Script.leads_fail

/-! A session is idle between its runs. -/

namespace Session

/--
One use of a session.  Evaluations and calls ask for values; those in the scope of programs settle
the session afterwards.
-/
inductive Uses (settings : Settings) : Session → Session → Prop
  | load {session : Session} (datum : Datum) :
      Uses settings session (session.load datum).2
  | define {session : Session} (name : String) (value : Value) :
      Uses settings session (session.define name value).2
  | register {session : Session} (bindings : List (String × Value)) :
      Uses settings session (session.register bindings).2
  | ask {session after : Session} {request : Request} {result : Except Fault Value} :
      request.IsNested →
      session.ask settings request = some (result, after) →
      Uses settings session after
  | settle {session : Session} :
      Uses settings session session.settle

/-- Any uses of a session, one after the other. -/
def Becomes (settings : Settings) : Session → Session → Prop :=
  Relation.ReflTransGen (Uses settings)

/-- A session that has been started and used in any way. -/
def Reachable (settings : Settings) (session : Session) : Prop :=
  Becomes settings (start settings) session

variable
  {settings : Settings}
  {session after : Session}

theorem surroundings_register
    (bindings : List (String × Value))
    (session : Session) :
    (session.register bindings).2.machine.surroundings = session.machine.surroundings := by
  induction bindings generalizing session with
  | nil =>
      rfl
  | cons binding rest inductionHypothesis =>
      exact inductionHypothesis _

/-- Asking a session for a value makes one run of its machine. -/
theorem reaches_of_ask
    {result : Except Fault Value}
    (asked : session.ask settings request = some (result, after)) :
    ∃ ending,
      Moment.Reaches settings.host settings.limit
        ⟨.serving request, [], session.machine⟩
        ⟨.returning ending, [], after.machine⟩ := by
  obtain ⟨root, user, machine⟩ := session
  simp only [ask] at asked
  split at asked
  case h_1 => cases asked
  case h_2 ending last served =>
    obtain ⟨-, rfl⟩ := Prod.mk.inj (Option.some.inj asked)
    exact ⟨ending, Machine.reaches_of_serve served []⟩

/-- Asking an idle session for a value leaves it idle. -/
theorem idle_ask
    (restrained : settings.host.Restrained catches)
    {result : Except Fault Value}
    (idle : session.machine.Idle)
    (asked : session.ask settings request = some (result, after)) :
    after.machine.Idle := by
  obtain ⟨ending, reaches⟩ := reaches_of_ask asked
  have orderly := (reaches.orderly restrained (.serving idle.numbered request)).1
  exact orderly.surrounded.eq_base.trans idle

/-- A text is loaded as a program and used, unless it cannot be read. -/
theorem of_withProgram
    {source : String}
    {continuation : Value → Session → Outcome Fault}
    {result : Except Failure Value}
    (ended : session.withProgram settings source continuation = some (result, after)) :
    after = session ∨
      ∃ forms ending,
        continuation (session.load (.program forms)).1 (session.load (.program forms)).2 =
          some (ending, after) := by
  unfold withProgram at ended
  cases read : @Reader.readAll settings.host.engine source with
  | error error =>
      rw [read] at ended
      obtain ⟨-, rfl⟩ := Prod.mk.inj (Option.some.inj ended)
      exact .inl rfl
  | ok forms =>
      rw [read] at ended
      dsimp only at ended
      cases continued : continuation (session.load (.program forms)).1
          (session.load (.program forms)).2 with
      | none =>
          rw [continued] at ended
          cases ended
      | some outcome =>
          rw [continued] at ended
          obtain ⟨-, rfl⟩ := Prod.mk.inj (Option.some.inj ended)
          exact .inr ⟨forms, outcome.1, continued⟩

private theorem idle_evaluateTextInRoot
    (restrained : settings.host.Restrained catches)
    {source : String}
    {result : Except Failure Value}
    (idle : session.machine.Idle)
    (ended : session.evaluateTextInRoot settings source = some (result, after)) :
    after.machine.Idle := by
  rcases of_withProgram ended with rfl | ⟨forms, ending, asked⟩
  · exact idle
  · have loaded : (session.load (.program forms)).2.machine.Idle := idle
    exact idle_ask restrained loaded asked

private theorem idle_loadLibrary
    (idle : session.machine.Idle) :
    (session.loadLibrary settings).machine.Idle := by
  unfold loadLibrary
  -- Whatever the text of the library is, its evaluation gives the surroundings back.
  generalize Library.text = source
  cases loaded : session.evaluateTextInRoot { settings with host := Host.absent } source with
  | none =>
      exact idle
  | some outcome =>
      obtain ⟨result, after⟩ := outcome
      exact idle_evaluateTextInRoot (Host.restrained_absent True) idle loaded

private theorem idle_bare :
    bare.machine.Idle := by
  unfold bare
  generalize initialBindings = bindings
  generalize Store.empty.newRoot = rooted
  obtain ⟨root, store⟩ := rooted
  dsimp only
  generalize store.newChild root = opened
  obtain ⟨user, store⟩ := opened
  exact surroundings_register bindings _

theorem idle_start :
    (start settings).machine.Idle := by
  unfold start
  split
  · exact idle_loadLibrary idle_bare
  · exact idle_bare

/-- A session is idle between its runs, whether it has been settled or not. -/
theorem Becomes.idle
    (restrained : settings.host.Restrained catches)
    (becomes : Becomes settings session after)
    (idle : session.machine.Idle) :
    after.machine.Idle := by
  induction becomes with
  | refl =>
      exact idle
  | tail _ uses inductionHypothesis =>
      cases uses with
      | load datum =>
          exact inductionHypothesis
      | define name value =>
          exact inductionHypothesis
      | register bindings =>
          exact (surroundings_register bindings _).trans inductionHypothesis
      | ask _ asked =>
          exact idle_ask restrained inductionHypothesis asked
      | settle =>
          rfl

theorem Reachable.idle
    (restrained : settings.host.Restrained catches)
    (reachable : Reachable settings session) :
    session.machine.Idle :=
  Becomes.idle restrained reachable idle_start

/-- What is done to a session between two runs leaves its machine at rest. -/
private theorem rests_register
    (bindings : List (String × Value))
    (session : Session) :
    session.machine.Rests (session.register bindings).2.machine := by
  refine ⟨?_, .inl (surroundings_register bindings session)⟩
  induction bindings generalizing session with
  | nil =>
      rfl
  | cons binding rest inductionHypothesis =>
      exact inductionHypothesis _

/-- However a session is used after a run, all its later runs belong to the same life. -/
theorem Becomes.precedes
    (restrained : settings.host.Restrained catches)
    (becomes : Becomes settings session after)
    (result : Except Unwind Value)
    (nested : request.IsNested) :
    Moment.Precedes catches
      ⟨.returning result, [], session.machine⟩
      ⟨.serving request, [], after.machine⟩ := by
  have rested :
      ∃ ending machine,
        Moment.Precedes catches
            ⟨.returning result, [], session.machine⟩ ⟨.returning ending, [], machine⟩ ∧
          machine.Rests after.machine := by
    induction becomes with
    | refl =>
        exact ⟨result, session.machine, .refl, .refl _⟩
    | @tail between after _ uses inductionHypothesis =>
        obtain ⟨ending, machine, precedes, rests⟩ := inductionHypothesis
        cases uses with
        | load datum =>
            exact ⟨ending, machine, precedes, rests.lastEscape, rests.surroundings⟩
        | define name value =>
            exact ⟨ending, machine, precedes, rests.lastEscape, rests.surroundings⟩
        | register bindings =>
            exact ⟨ending, machine, precedes, rests.trans (rests_register bindings between)⟩
        | ask nestedBetween asked =>
            obtain ⟨answer, reaches⟩ := reaches_of_ask asked
            have begins := precedes.tail (.again nestedBetween rests)
            exact ⟨answer, _, begins.trans (reaches.precedes restrained), .refl _⟩
        | settle =>
            exact ⟨ending, machine, precedes, rests.lastEscape, .inr rfl⟩
  obtain ⟨ending, machine, precedes, rests⟩ := rested
  exact precedes.tail (.again nested rests)

end Session

end SmallScheme
