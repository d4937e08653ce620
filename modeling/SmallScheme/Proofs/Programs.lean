import SmallScheme.Proofs.InitialScope
import SmallScheme.Proofs.ProcedureForms

namespace SmallScheme

/-!
# Programs of definitions and a form

A program that starts with definitions of procedures goes on with its other forms in a scope that
offers them.  What its last form ends with is the value that a new session has for the program.
-/

variable
  {host : Host}
  {limit fuel depth : Nat}
  {store : Store}
  {context : Context}
  {body : Datum}
  {value : Value}
  {name : String}
  {parameters : List String}
  {defined : List (String × Value)}

namespace Script.Ends

/-- A procedure is defined for the forms that follow. -/
theorem of_definition
    {rest : List Datum}
    {forms : List Value}
    (offers : store.Offers defined)
    (keyword :
      (defined ++ Session.initialBindings).lookup "define" = some (.special .definition))
    (isNew : defined.lookup name = none)
    (distinct : parameters.Nodup)
    (room : depth < limit)
    (enough : 3 ≤ fuel)
    (follows : rest ≠ [])
    (encodes : List.Forall₂ store.Encodes (.definition name parameters body :: rest) forms)
    (goesOn :
      ∀ {after : Store} {forms : List Value},
        store.Retains after →
        after.Offers ((name, .procedure store.procedures.size) :: defined) →
        after.Defines ⟨1, [0]⟩ store.procedures.size parameters body →
        List.Forall₂ after.Encodes rest forms →
        (Script.body ⟨1, [0]⟩ forms).Ends host limit fuel ⟨after, context, depth⟩ value) :
    (Script.body ⟨1, [0]⟩ forms).Ends host limit fuel ⟨store, context, depth⟩ value := by
  obtain _ | ⟨encodesDefinition, encodesRest⟩ := encodes
  obtain _ | ⟨encodesNext, encodesRest⟩ := encodesRest
  · exact (follows rfl).elim
  have noBinding : (store.frameAt 1).find? name = none := by
    obtain ⟨namespaces, user⟩ := offers.user
    rw [Store.frameAt, user]
    exact isNew
  obtain ⟨after, retains, frames, defines, served⟩ :=
    Machine.serve_definition (offers.sees.means keyword) noBinding distinct encodesDefinition room
      enough
  refine .of_bind ((Script.run_evaluate ⟨1, [0]⟩ _).trans served) ?_
  refine goesOn retains (offers.bound frames) defines ?_
  exact .cons (encodesNext.mono retains.pairs)
    (encodesRest.imp fun _ _ each => each.mono retains.pairs)

end Script.Ends

/-- The form itself, and the form under a handler that answers with the condition. -/
def Datum.plainOrHandled (form : Datum) : List Datum :=
  [form, .handled (.lambda ["condition"] (.symbol "condition")) form]

theorem Datum.isCode_plainOrHandled
    (isCode : body.isCode) :
    ∀ form ∈ body.plainOrHandled, form.isCode := by
  simpa [plainOrHandled, handled, lambda, names, ofList, listWithTail, Datum.isCode] using isCode

/--
What a form ends with wherever the names are seen and so many levels are left, it also ends with
under a handler, if one level more is left.
-/
theorem Machine.finds_plainOrHandled
    (levels : Nat)
    {scope : Scope}
    {bindings : List (String × Value)}
    (sees : store.Sees scope bindings)
    (handling :
      (bindings ++ Session.initialBindings).lookup "with-exception-handler" =
        some (.special .handling))
    (lambda : (bindings ++ Session.initialBindings).lookup "lambda" = some (.special .procedure))
    (room : depth + levels + 1 ≤ limit)
    (enough : 1 ≤ fuel)
    (finds :
      ∀ {after : Store} {inner : Scope} {context : Context} {depth : Nat},
        store.Retains after →
        after.Sees scope bindings →
        after.Sees inner bindings →
        depth + levels ≤ limit →
        Finds host limit fuel inner body ⟨after, context, depth⟩ value) :
    ∀ form ∈ body.plainOrHandled,
      Finds host limit (fuel + 3) scope form ⟨store, context, depth⟩ value := by
  simp only [Datum.plainOrHandled, List.mem_cons, List.not_mem_nil, or_false, forall_eq_or_imp,
    forall_eq]
  constructor
  · intro form encodes
    exact (finds (.refl store) sees sees (by omega) encodes).mono (Nat.le_add_right _ _)
  · refine Finds.of_handled (sees.means handling) (sees.means lambda) (by decide) (by omega)
      enough ?_
    intro after handlers address retains frames defines
    have seesAfter : after.Sees scope bindings := sees.deepened fun found => frames ▸ found
    refine apply_ends defines List.nodup_nil rfl (finds ?_ ?_ (seesAfter.entered [] _) (by omega))
    · exact retains.trans ⟨id, id⟩
    · exact seesAfter.deepened (after.isDeepenedTo_withFrame _)

namespace Reader

/-- The text is read as these forms, which are code. -/
def readsCode [Regex.Engine] (source : String) (forms : List Datum) : Bool :=
  match readAll source with
  | .ok found => Datum.sameForms found forms
  | .error _ => false

theorem readAll_of_readsCode
    {engine : Regex.Engine}
    {source : String}
    {forms : List Datum}
    (reads : readsCode source forms) :
    readAll source = .ok forms := by
  unfold readsCode at reads
  split at reads
  case h_1 found read =>
    rw [read, Datum.eq_of_sameForms reads]
  case h_2 => cases reads

end Reader

namespace Session

/--
Evaluating the program in a new session ends with the value, with so much fuel or more; so does any
text that is read as the program.
-/
structure Yields
    (settings : Settings)
    (forms : List Datum)
    (steps : Nat)
    (value : Value) : Prop where
  serves :
    ∃ last, ∀ fuel,
      steps ≤ fuel →
      Machine.serve settings.host settings.limit fuel
          (.evaluate ((start settings).load (.program forms)).2.user
            ((start settings).load (.program forms)).1)
          ((start settings).load (.program forms)).2.machine =
        some (.ok value, last)
  evaluates :
    ∀ source,
      @Reader.readAll settings.host.engine source = .ok forms →
      steps ≤ Fuel.ample →
      ∃ after, (start settings).evaluateText settings source = some (.ok value, after)

variable
  {settings : Settings}
  {forms : List Datum}
  {session : Session}

theorem evaluateText_of_serves
    {source : String}
    {last : Machine}
    (read : @Reader.readAll settings.host.engine source = .ok forms)
    (served :
      Machine.serve settings.host settings.limit Fuel.ample
          (.evaluate (session.load (.program forms)).2.user (session.load (.program forms)).1)
          (session.load (.program forms)).2.machine =
        some (.ok value, last)) :
    ∃ after, session.evaluateText settings source = some (.ok value, after) := by
  obtain ⟨root, user, store, context, depth⟩ := session
  refine ⟨settle ⟨root, user, last⟩, ?_⟩
  simp only [evaluateText, withProgram, read, evaluate, ask, load] at served ⊢
  rw [served]
  rfl

end Session

/-- A program is evaluated to what its forms end with, one level further in. -/
theorem Machine.serve_program
    {scope : Scope}
    {address : Nat}
    {forms : List Value}
    {result : Except Unwind Value}
    {after : Store}
    {later : Context}
    (room : depth < limit)
    (hasForms : store.programAt address = forms)
    (concluded :
      (Script.body scope forms).conclude .deferred (serve host limit fuel)
          ⟨store, context, depth + 1⟩ =
        some (result, ⟨after, later, depth + 1⟩)) :
    serve host limit (fuel + 2) (.evaluate scope (.program address)) ⟨store, context, depth⟩ =
      some (result, ⟨after, later, depth⟩) := by
  have viewed :
      (Script.view fun store => store.programAt address).run (serve host limit fuel) Run.done
          ⟨store, context, depth + 1⟩ =
        some (.ok forms, ⟨store, context, depth + 1⟩) := by
    rw [← hasForms]
    rfl
  refine serve_evaluate room ((serve_finish _).trans ?_)
  exact (Script.conclude_of_run_eq (Script.run_bind viewed _)).trans concluded

namespace Session

variable
  {settings : Settings}
  {forms : List Datum}

/-- What the forms of a program end with in the scope of a new session is what it yields. -/
theorem yields_of_ends
    (areCode : ∀ form ∈ forms, form.isCode)
    (room : 1 ≤ settings.limit)
    (ends :
      ∀ {store : Store} {context : Context} {values : List Value},
        store.Offers [] →
        List.Forall₂ store.Encodes forms values →
        (Script.body ⟨1, [0]⟩ values).Ends settings.host settings.limit fuel ⟨store, context, 1⟩
          value) :
    Yields settings forms (fuel + 2) value := by
  have offers := offers_start settings
  have user := user_start settings
  have idle : (start settings).machine.Idle := idle_start
  have served :
      ∃ last, ∀ more,
        fuel + 2 ≤ more →
        Machine.serve settings.host settings.limit more
            (.evaluate ((start settings).load (.program forms)).2.user
              ((start settings).load (.program forms)).1)
            ((start settings).load (.program forms)).2.machine =
          some (.ok value, last) := by
    generalize start settings = session at offers user idle
    obtain ⟨root, scope, store, context, depth⟩ := session
    obtain rfl : scope = ⟨1, [0]⟩ := user
    obtain rfl : depth = 0 := congrArg Surroundings.depth idle
    obtain ⟨address, values, isProgram, hasForms, writes, grows⟩ :=
      store.writes_load_program fun form member =>
          Datum.isMarkedCode_of_isCode (areCode form member)
    have begun : (store.load (.program forms)).2.Offers [] := offers.of_frames_eq grows.frames
    obtain ⟨last, concluded⟩ :=
      @ends (store.load (.program forms)).2 context values begun
        (Store.encodes_of_writes writes areCode)
    have finished := Machine.serve_program room hasForms concluded
    refine ⟨⟨last, context, 0⟩, fun more enough => Machine.serve_mono enough ?_⟩
    rw [← isProgram] at finished
    exact finished
  obtain ⟨last, served⟩ := served
  exact ⟨⟨last, served⟩, fun source read ample => evaluateText_of_serves read (served _ ample)⟩

end Session

end SmallScheme
