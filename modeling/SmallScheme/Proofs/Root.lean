import SmallScheme.Proofs.Moment.Life
import SmallScheme.Proofs.Moment.Respect

namespace SmallScheme

/-!
# The root of the scopes

Programs are evaluated in a scope inside the root.  Whatever they make, the frame of the root can
only be the outermost one of a scope, and forms are evaluated in scopes of a frame of their own.  So
nothing that a program does changes what the root binds, or the namespaces that are searched from
it.
-/

/-- If the frame is one of the scope at all, it is the outermost one. -/
def Scope.EndsAt (root : Nat) (scope : Scope) : Prop :=
  root ∉ scope.frames.dropLast

/--
The store has the frame of the root, which is as it has been sealed, and procedures belong to scopes
that end at the root.
-/
structure Store.Rooted (root : Nat) (sealed : Option Frame) (store : Store) : Prop where
  present : ∃ frame, store.frames[root]? = some frame
  kept : ∀ frame, sealed = some frame → store.frames[root]? = some frame
  procedures : ∀ address : Nat, (store.procedures[address]?.getD default).scope.EndsAt root

variable
  {root : Nat}
  {sealed : Option Frame}
  {store : Store}
  {scope : Scope}

namespace Scope.EndsAt

/-- A scope of one frame ends at every root. -/
theorem single
    (frame : Nat) :
    Scope.EndsAt root ⟨frame, []⟩ := by
  simp [Scope.EndsAt, Scope.frames]

/-- A scope with a new frame still ends at the root. -/
theorem extended
    (ends : scope.EndsAt root)
    {frame : Nat}
    (different : frame ≠ root) :
    Scope.EndsAt root ⟨frame, scope.frames⟩ := by
  have shape : (frame :: scope.frames).dropLast = frame :: scope.frames.dropLast :=
    List.dropLast_cons_of_ne_nil (List.cons_ne_nil _ _)
  intro member
  change root ∈ (frame :: scope.frames).dropLast at member
  rw [shape] at member
  rcases List.mem_cons.mp member with same | inside
  · exact different same.symm
  · exact ends inside

end Scope.EndsAt

namespace Store

/-- The part of a chain that starts with the first frame that binds a name. -/
theorem exists_of_holderIn
    {name : String}
    {frames : List Nat}
    {holder : Scope}
    (found : store.holderIn name frames = some holder) :
    ∃ inner, frames = inner ++ holder.frames := by
  induction frames with
  | nil =>
      cases found
  | cons frame outer inductionHypothesis =>
      unfold holderIn at found
      split at found
      · cases found
        exact ⟨[], rfl⟩
      · obtain ⟨inner, shape⟩ := inductionHypothesis found
        exact ⟨frame :: inner, by rw [shape]; rfl⟩

/-- Only the root itself holds a name in the frame of the root. -/
theorem holder_is_root
    (ends : scope.EndsAt root)
    {name : String}
    {holder : Scope}
    (found : store.holderIn name scope.frames = some holder)
    (same : holder.frame = root) :
    holder.isRoot := by
  obtain ⟨inner, shape⟩ := exists_of_holderIn found
  obtain ⟨frame, outer⟩ := holder
  subst same
  cases outer with
  | nil =>
      rfl
  | cons next rest =>
      change scope.frames = inner ++ frame :: next :: rest at shape
      have inside : frame ∈ scope.frames.dropLast := by
        rw [shape, List.dropLast_append_of_ne_nil (List.cons_ne_nil _ _)]
        simp
      exact absurd inside ends

/-- Where the root binds a name, assigning it fails and changes nothing. -/
theorem assign_in_root
    (ends : scope.EndsAt root)
    {name : String}
    {holder : Scope}
    (found : store.holderIn name scope.frames = some holder)
    (same : holder.frame = root)
    (value : Value) :
    Store.assign scope name value store = (.error (.immutableScope name), store) := by
  simp only [assign, found]
  rw [if_pos (holder_is_root ends found same)]

namespace Rooted

instance lexical : Lexical (Rooted root sealed) where
  overlooks := by
    intro before after rooted frames procedures
    refine ⟨?_, ?_, ?_⟩
    · rw [frames]
      exact rooted.present
    · rw [frames]
      exact rooted.kept
    · rw [procedures]
      exact rooted.procedures

/-- A change of another frame leaves the root, which matters only where it is sealed. -/
theorem modifyFrame
    (rooted : store.Rooted root sealed)
    {address : Nat}
    (different : sealed.isSome → address ≠ root)
    (change : Frame → Frame) :
    (store.modifyFrame address change).Rooted root sealed where
  present := by
    obtain ⟨frame, found⟩ := rooted.present
    simp only [Store.modifyFrame, Array.getElem?_modify, found]
    split <;> exact ⟨_, rfl⟩
  kept := by
    intro frame same
    have other : address ≠ root := different (by rw [same]; rfl)
    simp only [Store.modifyFrame, Array.getElem?_modify, if_neg other]
    exact rooted.kept frame same
  procedures := rooted.procedures

/-- The root is one of the frames. -/
theorem lt_size
    (rooted : store.Rooted root sealed) :
    root < store.frames.size := by
  obtain ⟨frame, found⟩ := rooted.present
  exact (Array.getElem?_eq_some_iff.mp found).1

/-- A new scope leaves the root. -/
theorem newChild
    (rooted : store.Rooted root sealed)
    (scope : Scope) :
    (store.newChild scope).2.Rooted root sealed := by
  have below : root ≠ store.frames.size := Nat.ne_of_lt rooted.lt_size
  refine ⟨?_, ?_, rooted.procedures⟩
  · obtain ⟨frame, found⟩ := rooted.present
    refine ⟨frame, ?_⟩
    simp only [Store.newChild, Store.newFrame, Array.getElem?_push, if_neg below]
    exact found
  · intro frame same
    simp only [Store.newChild, Store.newFrame, Array.getElem?_push, if_neg below]
    exact rooted.kept frame same

/-- A new procedure leaves the root if its scope ends there. -/
theorem newProcedure
    (rooted : store.Rooted root sealed)
    {procedure : Procedure}
    (ends : procedure.scope.EndsAt root) :
    (store.newProcedure procedure).2.Rooted root sealed := by
  refine ⟨rooted.present, rooted.kept, fun address => ?_⟩
  simp only [Store.newProcedure, Array.getElem?_push]
  split
  · exact ends
  · exact rooted.procedures address

/-- To name a procedure leaves the root. -/
theorem nameProcedure
    (rooted : store.Rooted root sealed)
    (address : Nat)
    (name : String) :
    (store.nameProcedure address name).Rooted root sealed := by
  refine ⟨rooted.present, rooted.kept, fun other => ?_⟩
  have ends := rooted.procedures other
  simp only [Store.nameProcedure, Array.getElem?_modify]
  split
  · cases found : store.procedures[other]? with
    | none =>
        rw [found] at ends
        exact ends
    | some procedure =>
        rw [found] at ends
        simp only [Option.map_some, Option.getD_some] at ends ⊢
        split <;> exact ends
  · exact ends

/-- A definition in another frame leaves the root. -/
theorem define
    (rooted : store.Rooted root sealed)
    (different : sealed.isSome → scope.frame ≠ root)
    (name : String)
    (value : Value) :
    (Store.define scope name value store).2.Rooted root sealed := by
  unfold Store.define
  split
  · exact rooted
  · exact rooted.modifyFrame different _

/-- An assignment leaves the root, for it changes no name there. -/
theorem assign
    (rooted : store.Rooted root sealed)
    (ends : scope.EndsAt root)
    (name : String)
    (value : Value) :
    (Store.assign scope name value store).2.Rooted root sealed := by
  unfold Store.assign
  split
  case h_1 => exact rooted
  case h_2 holder found =>
    split
    case isTrue => exact rooted
    case isFalse inside =>
      refine rooted.modifyFrame (fun _ same => ?_) _
      exact inside (holder_is_root ends found same)

end Rooted

end Store

/--
The law of the root: forms are evaluated in scopes that end at the root, and never in the root
itself once its frame has been sealed.
-/
def Law.rooted (root : Nat) (sealed : Option Frame) : Law where
  sound := Store.Rooted root sealed
  admits scope := scope.EndsAt root ∧ (sealed.isSome → scope.frame ≠ root)
  encloses := Scope.EndsAt root
  lexical := inferInstance
  encloses_of_admits admits := admits.1
  encloses_procedure rooted := rooted.procedures
  admits_child ends rooted :=
    ⟨ends.extended (Nat.ne_of_gt rooted.lt_size), fun _ => Nat.ne_of_gt rooted.lt_size⟩
  keeps_child _ _ rooted := rooted.newChild _
  keeps_procedure ends _ rooted := rooted.newProcedure ends
  keeps_name address name _ rooted := rooted.nameProcedure address name
  keeps_define admits name value _ rooted := rooted.define admits.2 name value
  keeps_assign admits name value _ rooted := rooted.assign admits.1 name value
  keeps_namespace admits _ _ rooted := rooted.modifyFrame admits.2 _

/-- Whatever the host does, it leaves every root alone as constructs do. -/
def Host.LeavesRoots (host : Host) : Prop :=
  ∀ root sealed, host.Respects (Law.rooted root sealed)

/-- The scope in which a form is about to be evaluated. -/
def Activity.scope? : Activity → Option Scope
  | .serving (.evaluate scope _) => some scope
  | .serving (.finish (.tail scope _)) => some scope
  | .serving (.finish (.expand scope _)) => some scope
  | _ => none

/-- Where a law is respected, forms are evaluated in the scopes that it admits. -/
theorem Moment.Respects.admits
    {law : Law}
    {moment : Moment}
    (respects : moment.Respects law)
    (current : moment.activity.scope? = some scope) :
    law.admits scope := by
  obtain ⟨activity, pending, machine⟩ := moment
  cases activity with
  | returning result =>
      cases current
  | serving request =>
      have granted := respects.grants request rfl
      cases request with
      | evaluate scope form =>
          cases current
          exact granted
      | call callee operands =>
          cases current
      | finish step =>
          cases step with
          | tail scope form =>
              cases current
              exact granted
          | expand scope form =>
              cases current
              exact granted
          | value value =>
              cases current
          | apply callee operands =>
              cases current
      | reach _ _ | endless =>
          cases current

namespace Store.Rooted

/-- The frame of the root can be sealed as it is. -/
theorem sealing
    (rooted : store.Rooted root none)
    {frame : Frame}
    (found : store.frames[root]? = some frame) :
    store.Rooted root (some frame) := by
  refine ⟨rooted.present, fun other same => ?_, rooted.procedures⟩
  cases same
  exact found

end Store.Rooted

namespace Session

/-- What a program can do with a session: it is put into the store and evaluated. -/
inductive Evaluates (settings : Settings) : Session → Session → Prop
  | load {session : Session} (datum : Datum) :
      Evaluates settings session (session.load datum).2
  | evaluate {session after : Session} {form : Value} {result : Except Fault Value} :
      session.evaluate settings form = some (result, after) →
      Evaluates settings session after

/-- Any number of programs, one after the other, whether they fail or not. -/
def RunsPrograms (settings : Settings) : Session → Session → Prop :=
  Relation.ReflTransGen (Evaluates settings)

/-- What else can be done with a session: names are defined and procedures are called. -/
inductive Handles (settings : Settings) : Session → Session → Prop
  | evaluates {session after : Session} :
      Evaluates settings session after →
      Handles settings session after
  | evaluateInRoot {session after : Session} {form : Value} {result : Except Fault Value} :
      session.evaluateInRoot settings form = some (result, after) →
      Handles settings session after
  | call
      {session after : Session}
      {callee : Value}
      {operands : List Value}
      {result : Except Fault Value} :
      session.call settings callee operands = some (result, after) →
      Handles settings session after
  | define {session : Session} (name : String) (value : Value) :
      Handles settings session (session.define name value).2
  | register {session : Session} (bindings : List (String × Value)) :
      Handles settings session (session.register bindings).2

/-- A session that has been started and handled in any way. -/
def Prepared (settings : Settings) (session : Session) : Prop :=
  Relation.ReflTransGen (Handles settings) (start settings) session

/-- The scopes of the session and its store end at its root, which is sealed. -/
structure Rooted (root : Nat) (sealed : Option Frame) (session : Session) : Prop where
  place : session.root = ⟨root, []⟩
  user : session.user.EndsAt root
  apart : session.user.frame ≠ root
  store : session.store.Rooted root sealed

variable
  {settings : Settings}
  {session after : Session}

namespace Rooted

/-- Whatever is asked for in admitted scopes leaves the session rooted. -/
theorem ask
    (respectful : settings.host.Respects (Law.rooted root sealed))
    (rooted : session.Rooted root sealed)
    {request : Request}
    (granted : (Law.rooted root sealed).Grants request)
    {result : Except Fault Value}
    (asked : session.ask settings request = some (result, after)) :
    after.Rooted root sealed := by
  obtain ⟨ending, reaches⟩ := reaches_of_ask asked
  have respects := (Moment.Respects.serving granted rooted.store).reaching respectful reaches
  obtain ⟨base, user, machine⟩ := session
  simp only [Session.ask] at asked
  split at asked
  · cases asked
  · cases asked
    exact ⟨rooted.place, rooted.user, rooted.apart, respects.sound⟩

/-- To load a datum leaves the root. -/
theorem load
    (rooted : session.Rooted root sealed)
    (datum : Datum) :
    (session.load datum).2.Rooted root sealed where
  place := rooted.place
  user := rooted.user
  apart := rooted.apart
  store := Store.keeps_load datum session.store rooted.store

/-- A definition by the host in another frame leaves the root. -/
theorem defineIn
    (rooted : session.Rooted root sealed)
    (different : sealed.isSome → scope.frame ≠ root)
    (name : String)
    (value : Value) :
    (session.defineIn scope name value).2.Rooted root sealed where
  place := rooted.place
  user := rooted.user
  apart := rooted.apart
  store := rooted.store.define different name value

/-- To register bindings leaves a root that is not sealed. -/
theorem register
    (rooted : session.Rooted root none)
    (bindings : List (String × Value)) :
    (session.register bindings).2.Rooted root none := by
  induction bindings generalizing session with
  | nil =>
      exact rooted
  | cons binding rest inductionHypothesis =>
      have unsealed : (none : Option Frame).isSome → session.root.frame ≠ root :=
        fun impossible => (nomatch impossible)
      exact inductionHypothesis (rooted.defineIn unsealed binding.1 binding.2)

/-- A program leaves the session rooted, and the frame of the root as it has been sealed. -/
theorem evaluates
    (respectful : settings.host.Respects (Law.rooted root sealed))
    (rooted : session.Rooted root sealed)
    (evaluates : Evaluates settings session after) :
    after.Rooted root sealed := by
  cases evaluates with
  | load datum =>
      exact rooted.load datum
  | @evaluate _ form result evaluated =>
      simp only [Session.evaluate] at evaluated
      split at evaluated
      case h_1 => cases evaluated
      case h_2 result between asked =>
        cases evaluated
        have granted : (Law.rooted root sealed).Grants (.evaluate session.user form) :=
          ⟨rooted.user, fun _ => rooted.apart⟩
        obtain ⟨place, user, apart, store⟩ := rooted.ask respectful granted asked
        exact ⟨place, user, apart, store⟩

/-- Programs leave the root, whatever they do. -/
theorem runsPrograms
    (respectful : settings.host.Respects (Law.rooted root sealed))
    (rooted : session.Rooted root sealed)
    (programs : RunsPrograms settings session after) :
    after.Rooted root sealed := by
  induction programs with
  | refl =>
      exact rooted
  | tail _ evaluates inductionHypothesis =>
      exact inductionHypothesis.evaluates respectful evaluates

/-- However a session is handled, its scopes and procedures end at its root. -/
theorem handles
    (respectful : settings.host.Respects (Law.rooted root none))
    (rooted : session.Rooted root none)
    (handles : Handles settings session after) :
    after.Rooted root none := by
  have unsealed {scope : Scope} : (none : Option Frame).isSome → scope.frame ≠ root :=
    fun impossible => (nomatch impossible)
  cases handles with
  | evaluates evaluates =>
      exact rooted.evaluates respectful evaluates
  | @evaluateInRoot _ form result asked =>
      have granted : (Law.rooted root none).Grants (.evaluate session.root form) :=
        ⟨rooted.place ▸ .single root, unsealed⟩
      exact rooted.ask respectful granted asked
  | @call _ callee operands result asked =>
      have granted : (Law.rooted root none).Grants (.call callee operands) := trivial
      exact rooted.ask respectful granted asked
  | define name value =>
      exact rooted.defineIn unsealed name value
  | register bindings =>
      exact rooted.register bindings

/-- The bare session lies in the frame that it begins with. -/
theorem bare :
    bare.Rooted 0 none := by
  unfold Session.bare
  -- Whatever the root binds to begin with, no procedure has been made yet.
  generalize initialBindings = bindings
  refine register ?_ bindings
  refine ⟨rfl, ?_, by decide, ⟨_, rfl⟩, fun _ impossible => (nomatch impossible), ?_⟩
  · exact Scope.EndsAt.extended (.single 0) (by decide)
  · intro address
    exact .single 0

/-- The library is evaluated in the root, and its procedures belong to scopes that end there. -/
private theorem loadLibrary
    (settings : Settings)
    (rooted : session.Rooted root none) :
    (session.loadLibrary settings).Rooted root none := by
  unfold Session.loadLibrary
  -- Whatever the text of the library is, its evaluation keeps the session rooted.
  generalize Library.text = source
  cases loaded : session.evaluateTextInRoot { settings with host := Host.absent } source with
  | none =>
      exact rooted
  | some outcome =>
      obtain ⟨result, after⟩ := outcome
      rcases of_withProgram loaded with rfl | ⟨forms, ending, asked⟩
      · exact rooted
      · have begun := rooted.load (.program forms)
        exact begun.handles (Host.absent_respects _) (.evaluateInRoot asked)

/-- A prepared session lies in the frame that it begins with. -/
theorem start
    (settings : Settings) :
    (start settings).Rooted 0 none := by
  unfold Session.start
  split
  · exact loadLibrary settings bare
  · exact bare

end Rooted

/-- Whatever prepares a session, it lies in its root. -/
theorem Prepared.rooted
    (leavesRoots : settings.host.LeavesRoots)
    (prepared : Prepared settings session) :
    session.Rooted session.root.frame none := by
  have rooted : session.Rooted 0 none := by
    induction prepared with
    | refl =>
        exact .start settings
    | tail _ handles inductionHypothesis =>
        exact inductionHypothesis.handles (leavesRoots 0 none) handles
  rw [rooted.place]
  exact rooted

/-- Evaluating a text is running a program, even if it cannot be read. -/
theorem RunsPrograms.of_evaluateText
    {source : String}
    {result : Except Failure Value}
    (evaluated : session.evaluateText settings source = some (result, after)) :
    RunsPrograms settings session after := by
  rcases of_withProgram evaluated with rfl | ⟨forms, ending, evaluatedForms⟩
  · exact .refl
  · exact .tail (.single (.load (.program forms))) (.evaluate evaluatedForms)

end Session

/--
After its operand has been evaluated, an assignment to a name that the root binds fails, and changes
nothing.
-/
theorem Special.assignment_in_root
    (ends : scope.EndsAt root)
    {target : Value}
    {name : String}
    (identified : target.identifier? = some name)
    (form : Value) :
    ∃ next : Except Unwind Value → Script Step,
      assignment scope [target, form] = .asking (.evaluate scope form) next ∧
        ∀ (value : Value) (machine : Machine) (holder : Scope),
          machine.store.holderIn name scope.frames = some holder →
          holder.frame = root →
          (next (.ok value)).advance machine =
            .ended (.error (.fault (.immutableScope name))) machine := by
  refine ⟨_, by simp only [assignment, Script.nameFor, identified]; rfl, ?_⟩
  intro value machine holder found same
  change (Script.acting (Store.assign scope name value) _).advance machine = _
  rw [Script.advance_acting, Store.assign_in_root ends found same value]
  rfl

/--
However a session has been prepared, programs leave its root alone.  After any number of them, and
at every moment of the next one, the root binds what it did and the same namespaces are searched
from it; no form is evaluated in the root itself, and wherever one is evaluated, assigning a name
that means a binding of the root fails.
-/
theorem programs_leave_the_root_alone
    {settings : Settings}
    (leavesRoots : settings.host.LeavesRoots)
    {session after : Session}
    (prepared : Session.Prepared settings session)
    (programs : Session.RunsPrograms settings session after) :
    after.root = session.root ∧
      after.store.frameAt session.root.frame = session.store.frameAt session.root.frame ∧
      ∀ (form : Value) (moment : Moment),
        Moment.Reaches settings.host settings.limit
            ⟨.serving (.evaluate after.user form), [], after.machine⟩ moment →
          moment.machine.store.frameAt session.root.frame =
              session.store.frameAt session.root.frame ∧
            ∀ scope : Scope,
              moment.activity.scope? = some scope →
                scope.frame ≠ session.root.frame ∧
                  ∀ (target operand : Value) (name : String),
                    target.identifier? = some name →
                      ∃ next : Except Unwind Value → Script Step,
                        Special.assignment scope [target, operand] =
                            .asking (.evaluate scope operand) next ∧
                          ∀ (value : Value) (machine : Machine) (holder : Scope),
                            machine.store.holderIn name scope.frames = some holder →
                            holder.frame = session.root.frame →
                            (next (.ok value)).advance machine =
                              .ended (.error (.fault (.immutableScope name))) machine := by
  have rooted := prepared.rooted leavesRoots
  obtain ⟨frame, found⟩ := rooted.store.present
  have respectful := leavesRoots session.root.frame (some frame)
  have kept {store : Store} (sealed : store.Rooted session.root.frame (some frame)) :
      store.frameAt session.root.frame = session.store.frameAt session.root.frame := by
    simp only [Store.frameAt, sealed.kept frame rfl, found]
  have sealed : session.Rooted session.root.frame (some frame) :=
    ⟨rooted.place, rooted.user, rooted.apart, rooted.store.sealing found⟩
  have sealedAfter := sealed.runsPrograms respectful programs
  refine ⟨sealedAfter.place.trans rooted.place.symm, kept sealedAfter.store, ?_⟩
  intro form moment reaches
  have granted :
      (Law.rooted session.root.frame (some frame)).Grants (.evaluate after.user form) :=
    ⟨sealedAfter.user, fun _ => sealedAfter.apart⟩
  have begins := Moment.Respects.serving granted sealedAfter.store
  have respects := begins.reaching respectful reaches
  refine ⟨kept respects.sound, fun scope current => ?_⟩
  obtain ⟨ends, apart⟩ := respects.admits current
  refine ⟨apart rfl, fun target operand name identified => ?_⟩
  exact Special.assignment_in_root ends identified operand

/-- A session with the sample host and without the library. -/
def rootSettings : Settings :=
  ⟨16, false, Host.sample⟩

/-- The text has been refused the assignment of a name. -/
def refusesAssignment (name : String) : Except Failure Value → Bool
  | .error (.fault (.immutableScope refused)) => refused == name
  | _ => false

/--
A program hides one name of the root by a definition of its own and is refused the assignment of
another one; the root is as it was.
-/
theorem root_outlasts_hiding_and_assignment :
    ∃ result after,
      (Session.start rootSettings).evaluateText rootSettings "(define car 1) (set! cdr car)" =
          some (result, after) ∧
        refusesAssignment "cdr" result ∧
        after.get? "car" ≠ (Session.start rootSettings).get? "car" ∧
        after.store.frameAt 0 = (Session.start rootSettings).store.frameAt 0 := by
  have leavesRoots : rootSettings.host.LeavesRoots := fun _ _ => Host.sample_respects _
  have shape :
      ((Session.start rootSettings).evaluateText rootSettings "(define car 1) (set! cdr car)").any
        fun outcome =>
          refusesAssignment "cdr" outcome.1 &&
            (outcome.2.get? "car").any (fun value => value.number?.isSome) &&
            !((Session.start rootSettings).get? "car").any (fun value => value.number?.isSome) := by
    decide +kernel
  obtain ⟨⟨result, after⟩, evaluated, facts⟩ := (Option.any_eq_true _ _).mp shape
  simp only [Bool.and_eq_true, Bool.not_eq_true'] at facts
  obtain ⟨⟨refused, hidden⟩, before⟩ := facts
  have programs := Session.RunsPrograms.of_evaluateText evaluated
  have place : (Session.start rootSettings).root = ⟨0, []⟩ :=
    (Session.Rooted.start rootSettings).place
  have alone := (programs_leave_the_root_alone leavesRoots .refl programs).2.1
  simp only [place] at alone
  refine ⟨result, after, evaluated, refused, fun same => ?_, alone⟩
  rw [same, before] at hidden
  cases hidden

end SmallScheme
