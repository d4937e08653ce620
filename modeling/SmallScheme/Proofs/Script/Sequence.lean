import SmallScheme.Evaluation.Machine
import SmallScheme.Proofs.Script.Conduct

namespace SmallScheme.Script

/-!
# Scripts one after the other

Running one script and then what follows its answer is running the first one, and then, unless it
unwinds, the second one on the machine that it has left.
-/

variable
  {First Second Third : Type}

theorem bind_assoc
    (script : Script First)
    (next : First → Script Second)
    (last : Second → Script Third) :
    (script.bind next).bind last = script.bind fun answer => (next answer).bind last := by
  induction script with
  | done answer => rfl
  | unwind reason => rfl
  | viewing look continuation inductionHypothesis =>
      exact congrArg (Script.viewing look) (funext inductionHypothesis)
  | acting action continuation inductionHypothesis =>
      exact congrArg (Script.acting action) (funext inductionHypothesis)
  | switching change continuation inductionHypothesis =>
      exact congrArg (Script.switching change) (funext inductionHypothesis)
  | asking request continuation inductionHypothesis =>
      exact congrArg (Script.asking request) (funext inductionHypothesis)
  | deferring step continuation inductionHypothesis =>
      exact congrArg (Script.deferring step) (funext inductionHypothesis)

theorem bind_done
    (script : Script First) :
    script.bind .done = script := by
  induction script with
  | done answer => rfl
  | unwind reason => rfl
  | viewing look continuation inductionHypothesis =>
      exact congrArg (Script.viewing look) (funext inductionHypothesis)
  | acting action continuation inductionHypothesis =>
      exact congrArg (Script.acting action) (funext inductionHypothesis)
  | switching change continuation inductionHypothesis =>
      exact congrArg (Script.switching change) (funext inductionHypothesis)
  | asking request continuation inductionHypothesis =>
      exact congrArg (Script.asking request) (funext inductionHypothesis)
  | deferring step continuation inductionHypothesis =>
      exact congrArg (Script.deferring step) (funext inductionHypothesis)

/-- What follows an answer is run on the machine that the script has left. -/
theorem run_bind
    {serve : Request → Run Value}
    {handOver : Step → Run Step}
    {script : Script First}
    {machine middle : Machine}
    {answer : First}
    (ran : script.run serve handOver machine = some (.ok answer, middle))
    (next : First → Script Second) :
    (script.bind next).run serve handOver machine = (next answer).run serve handOver middle := by
  induction script generalizing machine with
  | done found =>
      cases ran
      rfl
  | unwind reason => cases ran
  | viewing look continuation inductionHypothesis => exact inductionHypothesis _ ran
  | acting action continuation inductionHypothesis => exact inductionHypothesis _ ran
  | switching change continuation inductionHypothesis => exact inductionHypothesis _ ran
  | asking request continuation inductionHypothesis =>
      simp only [Script.bind, run] at ran ⊢
      split at ran
      · cases ran
      · exact inductionHypothesis _ ran
  | deferring step continuation inductionHypothesis =>
      simp only [Script.bind, run] at ran ⊢
      split at ran
      · cases ran
      · exact inductionHypothesis _ ran

/-- What follows is not run when the script unwinds. -/
theorem run_bind_error
    {serve : Request → Run Value}
    {handOver : Step → Run Step}
    {script : Script First}
    {machine last : Machine}
    {reason : Unwind}
    (ran : script.run serve handOver machine = some (.error reason, last))
    (next : First → Script Second) :
    (script.bind next).run serve handOver machine = some (.error reason, last) := by
  induction script generalizing machine with
  | done found => cases ran
  | unwind other =>
      cases ran
      rfl
  | viewing look continuation inductionHypothesis => exact inductionHypothesis _ ran
  | acting action continuation inductionHypothesis => exact inductionHypothesis _ ran
  | switching change continuation inductionHypothesis => exact inductionHypothesis _ ran
  | asking request continuation inductionHypothesis =>
      simp only [Script.bind, run] at ran ⊢
      split at ran
      · cases ran
      · exact inductionHypothesis _ ran
  | deferring step continuation inductionHypothesis =>
      simp only [Script.bind, run] at ran ⊢
      split at ran
      · cases ran
      · exact inductionHypothesis _ ran

/-- A script with something that follows comes to an answer first, or it unwinds. -/
theorem run_bind_cases
    {serve : Request → Run Value}
    {handOver : Step → Run Step}
    {script : Script First}
    {next : First → Script Second}
    {machine last : Machine}
    {outcome : Except Unwind Second}
    (ran : (script.bind next).run serve handOver machine = some (outcome, last)) :
    (∃ answer middle,
      script.run serve handOver machine = some (.ok answer, middle) ∧
        (next answer).run serve handOver middle = some (outcome, last)) ∨
      ∃ reason,
        script.run serve handOver machine = some (.error reason, last) ∧
          outcome = .error reason := by
  induction script generalizing machine with
  | done found => exact .inl ⟨found, machine, rfl, ran⟩
  | unwind reason =>
      cases ran
      exact .inr ⟨reason, rfl, rfl⟩
  | viewing look continuation inductionHypothesis => exact inductionHypothesis _ ran
  | acting action continuation inductionHypothesis => exact inductionHypothesis _ ran
  | switching change continuation inductionHypothesis => exact inductionHypothesis _ ran
  | asking request continuation inductionHypothesis =>
      simp only [Script.bind, run] at ran ⊢
      cases served : serve request machine with
      | none => simp [served] at ran
      | some outcome =>
          rw [served] at ran
          exact inductionHypothesis _ ran
  | deferring step continuation inductionHypothesis =>
      simp only [Script.bind, run] at ran ⊢
      cases handed : handOver step machine with
      | none => simp [handed] at ran
      | some outcome =>
          rw [handed] at ran
          exact inductionHypothesis _ ran

/-- What follows is not run either when there is no outcome. -/
theorem run_bind_none
    {serve : Request → Run Value}
    {handOver : Step → Run Step}
    {script : Script First}
    {machine : Machine}
    (ran : script.run serve handOver machine = none)
    (next : First → Script Second) :
    (script.bind next).run serve handOver machine = none := by
  cases bound : (script.bind next).run serve handOver machine with
  | none => rfl
  | some outcome =>
      obtain ⟨_, _, came, _⟩ | ⟨_, came, _⟩ := run_bind_cases bound <;> cases ran.symm.trans came

/-! The requests that scripts are made of. -/

variable
  {serve : Request → Run Value}
  {handOver : Step → Run Step}
  {machine : Machine}

theorem run_perform
    {action : StoreM First}
    {answer : First}
    {store : Store}
    (acted : action machine.store = (.ok answer, store)) :
    (perform action).run serve handOver machine = some (.ok answer, { machine with store }) := by
  obtain ⟨before, context, depth⟩ := machine
  simp only [perform, run, acted, Run.done]

theorem run_perform_error
    {action : StoreM First}
    {fault : Fault}
    {store : Store}
    (acted : action machine.store = (.error fault, store))
    (ends : fault.isEndless = false) :
    (perform action).run serve handOver machine =
      some (.error (.fault fault), { machine with store }) := by
  obtain ⟨before, context, depth⟩ := machine
  simp only [perform, run, acted, report, ends, Bool.false_eq_true, if_false, fail, Run.unwind]

/-- A fault shows a value as it is written. -/
theorem run_failTelling
    {value : Value}
    {text : String}
    (written : machine.store.written? value = some text)
    (fault : String → Fault) :
    (failTelling value fault : Script First).run serve handOver machine =
      some (.error (.fault (fault text)), machine) := by
  have writes : (writing value).run serve handOver machine = some (.ok text, machine) := by
    simp only [writing, view, Bind.bind, bind, run, written]
    rfl
  exact run_bind writes _

/-- Nothing but what is served to who waits comes of a fault whose value has no text. -/
theorem run_failTelling_endless
    {value : Value}
    (endless : machine.store.written? value = none)
    (fault : String → Fault) :
    (failTelling value fault : Script First).run serve handOver machine =
      (serve .endless machine).map fun (result, later) =>
        (.error (match result with | .ok _ => .fault (fault "") | .error reason => reason),
            later) := by
  simp only [failTelling, writing, wait, view, Bind.bind, bind, run, endless]
  rcases serve .endless machine with _ | ⟨_ | _, _⟩ <;> rfl

/-- Whoever serves it, a fault gives no answer. -/
theorem run_report_ne_ok
    {cause : Fault}
    {answer : First}
    {last : Machine} :
    (report cause).run serve handOver machine ≠ some (.ok answer, last) := by
  intro ran
  have bound := run_bind ran fun _ => (fail cause : Script First)
  rw [bind_report, ran] at bound
  cases bound

theorem run_failTelling_ne_ok
    {value : Value}
    {fault : String → Fault}
    {answer : First}
    {last : Machine} :
    (failTelling value fault).run serve handOver machine ≠ some (.ok answer, last) := by
  intro ran
  have bound := run_bind ran fun _ => (fail (fault "") : Script First)
  rw [bind_failTelling, ran] at bound
  cases bound

/-- Where nobody is served who waits, a fault that comes about has shown its value. -/
theorem of_run_failTelling
    {value : Value}
    {fault : String → Fault}
    {result : Except Unwind First}
    {last : Machine}
    (waits : ∀ machine, serve .endless machine = none)
    (ran : (failTelling value fault).run serve handOver machine = some (result, last)) :
    ∃ text,
      machine.store.written? value = some text ∧ result = .error (.fault (fault text)) ∧
        last = machine := by
  cases written : machine.store.written? value with
  | some text =>
      rw [run_failTelling written] at ran
      cases ran
      exact ⟨text, rfl, rfl, rfl⟩
  | none =>
      rw [run_failTelling_endless written, waits] at ran
      cases ran

theorem of_run_report
    {cause : Fault}
    {result : Except Unwind First}
    {last : Machine}
    (waits : ∀ machine, serve .endless machine = none)
    (ran : (report cause).run serve handOver machine = some (result, last)) :
    result = .error (.fault cause) ∧ last = machine := by
  unfold report at ran
  split at ran
  · simp only [wait, Bind.bind, bind, run, waits] at ran
    cases ran
  · cases ran
    exact ⟨rfl, rfl⟩

/-- Whether the scope of a macro is still there is what the request for that is served with. -/
theorem run_reaches
    {scope home : Scope}
    {isHeld : Bool}
    (served : serve (.reach scope home) machine = Run.done (.boolean isHeld) machine) :
    (reaches scope home).run serve handOver machine = some (.ok isHeld, machine) := by
  have asked :
      (.asking (.reach scope home) ofResult : Script Value).run serve handOver machine =
        some (.ok (.boolean isHeld), machine) := by
    simp only [run, served]
    rfl
  refine (run_bind asked fun answer => .done answer.isTrue).trans ?_
  cases isHeld <;> rfl

/-- An identifier from a macro is looked up at home, if that is still there, and then as any
name. -/
theorem run_scopedNameValue
    (host : Host)
    {scope home : Scope}
    (name : String)
    {isHeld : Bool}
    (served : serve (.reach scope home) machine = Run.done (.boolean isHeld) machine) :
    (scopedNameValue host scope home name).run serve handOver machine =
      match if isHeld then machine.store.lookup? home name else none with
      | some value => some (.ok value, machine)
      | none => (nameValue host scope name).run serve handOver machine := by
  refine (run_bind (run_reaches served) _).trans ?_
  change Script.run serve handOver (match (if isHeld then _ else none : Option Value) with
    | some value => .done value
    | none => nameValue host scope name) machine = _
  cases (if isHeld then machine.store.lookup? home name else none : Option Value) <;> rfl

/-- The value of a form is what the request for it is served with. -/
theorem run_evaluate
    (scope : Scope)
    (form : Value) :
    (evaluate scope form).run serve handOver machine = serve (.evaluate scope form) machine := by
  simp only [evaluate, run]
  rcases serve (.evaluate scope form) machine with _ | ⟨_ | _, _⟩ <;> rfl

/-- A script that is watched ends as it would have ended, and hands on how it did. -/
theorem run_attempt
    (script : Script First) :
    script.attempt.run serve handOver machine =
      (script.run serve handOver machine).map fun outcome => (.ok outcome.1, outcome.2) := by
  induction script generalizing machine with
  | done answer => rfl
  | unwind reason => rfl
  | viewing look continuation inductionHypothesis => exact inductionHypothesis _
  | acting action continuation inductionHypothesis => exact inductionHypothesis _
  | switching change continuation inductionHypothesis => exact inductionHypothesis _
  | asking request continuation inductionHypothesis =>
      simp only [attempt, run]
      split
      · rfl
      · exact inductionHypothesis _
  | deferring step continuation inductionHypothesis =>
      simp only [attempt, run]
      split
      · rfl
      · exact inductionHypothesis _

end SmallScheme.Script
