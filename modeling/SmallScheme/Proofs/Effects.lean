import SmallScheme.Proofs.Store.Additions

namespace SmallScheme

/-!
# Evaluation with effects

Rules by which forms are evaluated that change the machine.  How much fuel is enough is left open,
for it depends on what is called; whatever has been served with some fuel is served alike with more.
So the parts of a run can be put together one after the other.
-/

variable
  {host : Host}
  {limit depth : Nat}
  {store : Store}
  {context : Context}
  {scope : Scope}
  {form value : Value}

/-- With enough fuel the request is served with the value, which leaves the last machine. -/
def Machine.Serves
    (host : Host)
    (limit : Nat)
    (request : Request)
    (machine : Machine)
    (value : Value)
    (last : Machine) : Prop :=
  ∃ fuel, serve host limit fuel request machine = some (.ok value, last)

namespace Script

variable
  {First Second Answer : Type}
  {machine between last : Machine}

/-- With enough fuel the script runs to the answer, which leaves the last machine. -/
def RunsTo
    (host : Host)
    (limit : Nat)
    (script : Script Answer)
    (machine : Machine)
    (answer : Answer)
    (last : Machine) : Prop :=
  ∃ fuel, script.run (Machine.serve host limit fuel) Run.done machine = some (.ok answer, last)

/-- With enough fuel the script and the step that it comes to end with the value. -/
def Concludes
    (host : Host)
    (limit : Nat)
    (script : Script Step)
    (machine : Machine)
    (value : Value)
    (last : Machine) : Prop :=
  ∃ fuel,
    script.conclude .deferred (Machine.serve host limit fuel) machine = some (.ok value, last)

/-- What runs still does when more requests are served. -/
theorem run_mono
    {serving others : Request → Run Value}
    {handOver : Step → Run Step}
    (extended :
      ∀ request machine outcome,
        serving request machine = some outcome →
        others request machine = some outcome)
    {script : Script Answer}
    {outcome : Except Unwind Answer × Machine}
    (ran : script.run serving handOver machine = some outcome) :
    script.run others handOver machine = some outcome := by
  induction script generalizing machine with
  | done answer => exact ran
  | unwind reason => exact ran
  | viewing look next inductionHypothesis => exact inductionHypothesis _ ran
  | acting action next inductionHypothesis => exact inductionHypothesis _ ran
  | switching change next inductionHypothesis => exact inductionHypothesis _ ran
  | asking request next inductionHypothesis =>
      simp only [run] at ran ⊢
      cases served : serving request machine with
      | none => simp [served] at ran
      | some outcome =>
          rw [served] at ran
          rw [extended _ _ _ served]
          exact inductionHypothesis _ ran
  | deferring step next inductionHypothesis =>
      simp only [run] at ran ⊢
      split at ran
      · cases ran
      · exact inductionHypothesis _ ran

/-- A script leaves as many levels open as the requests that it makes. -/
theorem depth_of_run
    {serving : Request → Run Value}
    (same :
      ∀ {request : Request} {machine last : Machine} {result : Except Unwind Value},
        serving request machine = some (result, last) →
        last.depth = machine.depth)
    {script : Script Answer}
    {result : Except Unwind Answer}
    (ran : script.run serving Run.done machine = some (result, last)) :
    last.depth = machine.depth := by
  induction script generalizing machine with
  | done answer =>
      cases ran
      rfl
  | unwind reason =>
      cases ran
      rfl
  | viewing look next inductionHypothesis => exact inductionHypothesis _ ran
  | acting action next inductionHypothesis => exact (inductionHypothesis _ ran).trans rfl
  | switching change next inductionHypothesis => exact (inductionHypothesis _ ran).trans rfl
  | asking request next inductionHypothesis =>
      simp only [run] at ran
      cases served : serving request machine with
      | none => simp [served] at ran
      | some outcome =>
          rw [served] at ran
          exact (inductionHypothesis _ ran).trans (same served)
  | deferring step next inductionHypothesis => exact inductionHypothesis _ ran

theorem RunsTo.bind
    {script : Script First}
    {next : First → Script Second}
    {answer : First}
    {result : Second}
    (first : script.RunsTo host limit machine answer between)
    (second : (next answer).RunsTo host limit between result last) :
    (script.bind next).RunsTo host limit machine result last := by
  obtain ⟨fuel, ran⟩ := first
  obtain ⟨more, continued⟩ := second
  refine ⟨max fuel more, ?_⟩
  rw [run_bind (run_mono (fun _ _ _ => Machine.serve_mono (Nat.le_max_left fuel more)) ran) next]
  exact run_mono (fun _ _ _ => Machine.serve_mono (Nat.le_max_right fuel more)) continued

/-- A script is concluded as what follows the answer that it runs to. -/
theorem Concludes.of_bind
    {script : Script Answer}
    {next : Answer → Script Step}
    {answer : Answer}
    (first : script.RunsTo host limit machine answer between)
    (second : (next answer).Concludes host limit between value last) :
    (script.bind next).Concludes host limit machine value last := by
  obtain ⟨fuel, ran⟩ := first
  obtain ⟨more, concluded⟩ := second
  refine ⟨max fuel more, ?_⟩
  have ran := run_mono (fun _ _ _ => Machine.serve_mono (Nat.le_max_left fuel more)) ran
  rw [conclude_of_run_eq (run_bind ran next)]
  exact conclude_mono (fun _ _ _ => Machine.serve_mono (Nat.le_max_right fuel more)) _ concluded

theorem runsTo_done
    (answer : Answer)
    (machine : Machine) :
    (Script.done answer).RunsTo host limit machine answer machine :=
  ⟨0, rfl⟩

theorem runsTo_view
    (look : Store → Answer)
    (machine : Machine) :
    (view look).RunsTo host limit machine (look machine.store) machine :=
  ⟨0, rfl⟩

theorem runsTo_perform
    {action : StoreM Answer}
    {answer : Answer}
    {after : Store}
    (acted : action store = (.ok answer, after)) :
    (perform action).RunsTo host limit ⟨store, context, depth⟩ answer ⟨after, context, depth⟩ :=
  ⟨0, run_perform acted⟩

theorem runsTo_evaluate
    (served : Machine.Serves host limit (.evaluate scope form) machine value last) :
    (evaluate scope form).RunsTo host limit machine value last :=
  served.imp fun _ served => (run_evaluate scope form).trans served

theorem concludes_answer
    (value : Value)
    (machine : Machine) :
    (answer value).Concludes host limit machine value machine :=
  ⟨1, rfl⟩

end Script

namespace Machine

variable
  {machine last : Machine}

/-- Serving a request leaves as many levels open as there were. -/
theorem depth_of_serve
    {fuel : Nat}
    {request : Request}
    {result : Except Unwind Value}
    (served : serve host limit fuel request machine = some (result, last)) :
    last.depth = machine.depth := by
  induction fuel generalizing request machine last result with
  | zero => cases served
  | succ fuel inductionHypothesis =>
      cases serving_of_serve served with
      | refused => rfl
      | nested _ _ inside => exact congrArg (· - 1) (inductionHypothesis inside)
      | value => rfl
      | unwound _ ran => exact Script.depth_of_run inductionHypothesis ran
      | followed _ ran following =>
          exact (inductionHypothesis following).trans
            (Script.depth_of_run inductionHypothesis ran)
      | reached => rfl

/-- However much fuel there is, the value and the last machine are the same. -/
theorem Serves.unique
    {request : Request}
    {other : Value}
    {otherLast : Machine}
    (serves : Serves host limit request machine value last)
    (servesOther : Serves host limit request machine other otherLast) :
    value = other ∧ last = otherLast := by
  obtain ⟨fuel, served⟩ := serves
  obtain ⟨more, servedOther⟩ := servesOther
  have same :=
    (serve_mono (Nat.le_max_left fuel more) served).symm.trans
      (serve_mono (Nat.le_max_right fuel more) servedOther)
  cases same
  exact ⟨rfl, rfl⟩

theorem Serves.depth_eq
    {request : Request}
    (serves : Serves host limit request machine value last) :
    last.depth = machine.depth :=
  serves.elim fun _ => depth_of_serve

/-- A step that amounts to a script is finished as the script is concluded. -/
theorem serves_finish_iff
    {step : Step}
    {script : Script Step}
    (amounts : stepScript host step = .inr script) :
    Serves host limit (.finish step) machine value last ↔
      script.Concludes host limit machine value last := by
  constructor
  · rintro ⟨fuel | fuel, served⟩
    · cases served
    · rw [serve_finish, amounts] at served
      exact ⟨fuel, served⟩
  · rintro ⟨fuel, concluded⟩
    refine ⟨fuel + 1, ?_⟩
    rw [serve_finish, amounts]
    exact concluded

/-- What runs on a level of its own has the outcome that it has there. -/
theorem nested_eq_ok_iff
    {inside : Run Value}
    {after : Store}
    {later : Context}
    (same :
      ∀ {machine last : Machine} {result : Except Unwind Value},
        inside machine = some (result, last) →
        last.depth = machine.depth) :
    Run.nested limit inside ⟨store, context, depth⟩ = some (.ok value, ⟨after, later, depth⟩) ↔
      depth < limit ∧
        inside ⟨store, context, depth + 1⟩ = some (.ok value, ⟨after, later, depth + 1⟩) := by
  constructor
  · intro nested
    unfold Run.nested at nested
    split at nested
    case isTrue => cases nested
    case isFalse room =>
      split at nested
      case h_1 => cases nested
      case h_2 result inner ran =>
        obtain ⟨store, context, depth⟩ := inner
        cases same ran
        cases nested
        exact ⟨Nat.lt_of_not_le room, ran⟩
  · rintro ⟨room, ran⟩
    simp only [Run.nested, if_neg (Nat.not_le_of_lt room), ran, Nat.add_sub_cancel]

section Nested

variable
  {after : Store}
  {later : Context}

/-- A request that opens a level is served as the step is finished there. -/
theorem serves_of_opens_iff
    {request : Request}
    {step : Step}
    (opens : request.opens? = some step) :
    Serves host limit request ⟨store, context, depth⟩ value ⟨after, later, depth⟩ ↔
      depth < limit ∧
        Serves host limit (.finish step) ⟨store, context, depth + 1⟩ value
          ⟨after, later, depth + 1⟩ := by
  have nested (fuel : Nat) :
      serve host limit (fuel + 1) request ⟨store, context, depth⟩ =
        Run.nested limit (serve host limit fuel (.finish step)) ⟨store, context, depth⟩ := by
    cases request <;> cases opens <;> rfl
  constructor
  · rintro ⟨fuel | fuel, served⟩
    · cases served
    · obtain ⟨room, inside⟩ :=
        (nested_eq_ok_iff depth_of_serve).mp ((nested fuel).symm.trans served)
      exact ⟨room, fuel, inside⟩
  · rintro ⟨room, fuel, inside⟩
    exact ⟨fuel + 1, (nested fuel).trans ((nested_eq_ok_iff depth_of_serve).mpr ⟨room, inside⟩)⟩

theorem serves_evaluate_iff :
    Serves host limit (.evaluate scope form) ⟨store, context, depth⟩ value
        ⟨after, later, depth⟩ ↔
      depth < limit ∧
        (Evaluation.script host scope form).Concludes host limit ⟨store, context, depth + 1⟩ value
          ⟨after, later, depth + 1⟩ :=
  (serves_of_opens_iff rfl).trans (and_congr_right fun _ => serves_finish_iff rfl)

theorem serves_call_iff
    {callee : Value}
    {operands : List Value} :
    Serves host limit (.call callee operands) ⟨store, context, depth⟩ value
        ⟨after, later, depth⟩ ↔
      depth < limit ∧
        (Application.apply host callee operands).Concludes host limit ⟨store, context, depth + 1⟩
          value ⟨after, later, depth + 1⟩ :=
  (serves_of_opens_iff rfl).trans (and_congr_right fun _ => serves_finish_iff rfl)

end Nested

/-- What means a value is evaluated to it, which changes nothing. -/
theorem serves_of_means
    {levels : Nat}
    {base : Store}
    {datum : Datum}
    (means : store.Means host limit levels scope datum value)
    (isCode : datum.isCode)
    (writes : base.Writes datum form)
    (keeps : base.KeepsCode store)
    (room : depth + levels ≤ limit) :
    Serves host limit (.evaluate scope form) ⟨store, context, depth⟩ value
      ⟨store, context, depth⟩ :=
  ⟨2 * levels + 1, means ((writes.encodes isCode).mono keeps.pairs) room (Nat.le_refl _)⟩

/--
Forms are evaluated one after the other.  Whenever one of them is due, the store still keeps the
code of the base.
-/
inductive ServesInTurn
    (host : Host)
    (limit : Nat)
    (base : Store)
    (scope : Scope) : List Value → Machine → List Value → Machine → Prop
  | nothing (machine : Machine) : ServesInTurn host limit base scope [] machine [] machine
  | form
      {form value : Value}
      {forms values : List Value}
      {machine between last : Machine} :
      base.KeepsCode machine.store →
      Serves host limit (.evaluate scope form) machine value between →
      ServesInTurn host limit base scope forms between values last →
      ServesInTurn host limit base scope (form :: forms) machine (value :: values) last

theorem ServesInTurn.append
    {base : Store}
    {forms others values otherValues : List Value}
    {between : Machine}
    (inTurn : ServesInTurn host limit base scope forms machine values between)
    (further : ServesInTurn host limit base scope others between otherValues last) :
    ServesInTurn host limit base scope (forms ++ others) machine (values ++ otherValues) last := by
  induction inTurn with
  | nothing => exact further
  | form keeps served _ inductionHypothesis =>
      exact .form keeps served (inductionHypothesis further)

end Machine

end SmallScheme
