import SmallScheme.Proofs.Effects

namespace SmallScheme

/-!
# Scripts that go on with others

A script goes on with another one if it ends as the other one does and has handed over so many steps
before.  The rules for calls and for what stands in tail position are stated in these terms.  So
they serve for what comes to an end as well as for what never does: no fuel is enough for a script
that goes on with others as long as one likes.
-/

variable
  {host : Host}
  {limit : Nat}
  {scope : Scope}
  {form value : Value}

namespace Script

variable
  {Answer : Type}
  {script next other : Script Step}
  {machine between after last : Machine}
  {result : Except Unwind Value}
  {steps more fuel : Nat}

/-- With enough fuel the script and the step that it comes to have the result. -/
def HasResult
    (host : Host)
    (limit : Nat)
    (script : Script Step)
    (machine : Machine)
    (result : Except Unwind Value)
    (last : Machine) : Prop :=
  ∃ fuel, script.conclude .deferred (Machine.serve host limit fuel) machine = some (result, last)

/-- No fuel is enough for the script and the step that it comes to. -/
def IsEndless
    (host : Host)
    (limit : Nat)
    (script : Script Step)
    (machine : Machine) : Prop :=
  ∀ fuel, script.conclude .deferred (Machine.serve host limit fuel) machine = none

/-- No form around it is written into the result. -/
def IsPlaced (result : Except Unwind Value) : Prop :=
  ∀ expression, result.mapError (Application.locatedIn expression) = result

/--
The script has the result that the next one has, apart from the forms that are written into it, and
it takes so many steps more.
-/
structure GoesOn
    (host : Host)
    (limit : Nat)
    (script : Script Step)
    (machine : Machine)
    (steps : Nat)
    (next : Script Step)
    (after : Machine) : Prop where
  hasResult :
    ∀ {result : Except Unwind Value} {last : Machine},
      IsPlaced result →
      next.HasResult host limit after result last →
      script.HasResult host limit machine result last
  takes :
    ∀ {fuel : Nat} {outcome : Except Unwind Value × Machine},
      script.conclude .deferred (Machine.serve host limit fuel) machine = some outcome →
      ∃ less outcome,
        fuel = less + steps ∧
          next.conclude .deferred (Machine.serve host limit less) after = some outcome

namespace GoesOn

theorem refl
    (script : Script Step)
    (machine : Machine) :
    script.GoesOn host limit machine 0 script machine where
  hasResult _ := id
  takes concluded := ⟨_, _, rfl, concluded⟩

theorem trans
    (first : script.GoesOn host limit machine steps next between)
    (second : next.GoesOn host limit between more other after) :
    script.GoesOn host limit machine (more + steps) other after where
  hasResult isPlaced comes := first.hasResult isPlaced (second.hasResult isPlaced comes)
  takes concluded := by
    obtain ⟨between, _, rfl, onward⟩ := first.takes concluded
    obtain ⟨less, outcome, rfl, ended⟩ := second.takes onward
    exact ⟨less, outcome, by omega, ended⟩

theorem trans_at_once
    (first : script.GoesOn host limit machine 0 next between)
    (second : next.GoesOn host limit between more other after) :
    script.GoesOn host limit machine more other after :=
  first.trans second

theorem trans_step
    (first : script.GoesOn host limit machine 1 next between)
    (second : next.GoesOn host limit between more other after) :
    script.GoesOn host limit machine (more + 1) other after :=
  first.trans second

theorem concludes
    (goesOn : script.GoesOn host limit machine steps next after)
    (concludes : next.Concludes host limit after value last) :
    script.Concludes host limit machine value last :=
  goesOn.hasResult (fun _ => rfl) concludes

theorem isEndless
    (goesOn : script.GoesOn host limit machine steps next after)
    (endless : next.IsEndless host limit after) :
    script.IsEndless host limit machine := by
  intro fuel
  cases concluded : script.conclude .deferred (Machine.serve host limit fuel) machine with
  | none => rfl
  | some outcome =>
      obtain ⟨less, _, -, nextConcluded⟩ := goesOn.takes concluded
      cases (endless less).symm.trans nextConcluded

/-- Scripts that run alike go on with each other. -/
theorem of_run_eq
    (same :
      ∀ serving : Request → Run Value,
        script.run serving Run.done machine = next.run serving Run.done after) :
    script.GoesOn host limit machine 0 next after where
  hasResult _ := fun ⟨fuel, concluded⟩ => ⟨fuel, (conclude_of_run_eq (same _)).trans concluded⟩
  takes concluded := ⟨_, _, rfl, (conclude_of_run_eq (same _)).symm.trans concluded⟩

end GoesOn

/-- What goes on as long as one likes never ends. -/
theorem isEndless_of_goesOn
    (onward :
      ∀ count, ∃ steps next after,
        count ≤ steps ∧ script.GoesOn host limit machine steps next after) :
    script.IsEndless host limit machine := by
  intro fuel
  obtain ⟨steps, next, after, enough, goesOn⟩ := onward (fuel + 1)
  cases concluded : script.conclude .deferred (Machine.serve host limit fuel) machine with
  | none => rfl
  | some outcome =>
      obtain ⟨less, _, taken, _⟩ := goesOn.takes concluded
      omega

/-- What always goes on with something of its kind never ends. -/
theorem isEndless_of_progress
    {invariant : Script Step → Machine → Prop}
    (progress :
      ∀ {script machine},
        invariant script machine →
        ∃ steps next after,
          script.GoesOn host limit machine (steps + 1) next after ∧ invariant next after)
    (holds : invariant script machine) :
    script.IsEndless host limit machine := by
  intro fuel
  induction fuel using Nat.strongRecOn generalizing script machine with
  | ind fuel inductionHypothesis =>
      obtain ⟨steps, next, after, goesOn, holdsAfter⟩ := progress holds
      cases concluded : script.conclude .deferred (Machine.serve host limit fuel) machine with
      | none => rfl
      | some outcome =>
          obtain ⟨less, _, rfl, nextConcluded⟩ := goesOn.takes concluded
          cases (inductionHypothesis less (by omega) holdsAfter).symm.trans nextConcluded

/-- However much fuel there is, a script runs to the same answer. -/
theorem RunsTo.eq_of_run
    {script : Script Answer}
    {answer : Answer}
    {outcome : Except Unwind Answer × Machine}
    (runs : script.RunsTo host limit machine answer last)
    (ran : script.run (Machine.serve host limit fuel) Run.done machine = some outcome) :
    outcome = (.ok answer, last) := by
  obtain ⟨more, runs⟩ := runs
  have ran := run_mono (fun _ _ _ => Machine.serve_mono (Nat.le_max_left fuel more)) ran
  have runs := run_mono (fun _ _ _ => Machine.serve_mono (Nat.le_max_right fuel more)) runs
  exact Option.some.inj (ran.symm.trans runs)

/-- A script goes on with what follows the answer that it runs to. -/
theorem RunsTo.goesOn
    {script : Script Answer}
    {answer : Answer}
    (first : script.RunsTo host limit machine answer between)
    (next : Answer → Script Step) :
    (script.bind next).GoesOn host limit machine 0 (next answer) between where
  hasResult _ := by
    rintro ⟨more, concluded⟩
    obtain ⟨fuel, ran⟩ := first
    refine ⟨max fuel more, ?_⟩
    have ran := run_mono (fun _ _ _ => Machine.serve_mono (Nat.le_max_left fuel more)) ran
    rw [conclude_of_run_eq (run_bind ran next)]
    exact conclude_mono (fun _ _ _ => Machine.serve_mono (Nat.le_max_right fuel more)) _ concluded
  takes {fuel outcome} concluded := by
    refine ⟨fuel, outcome, rfl, ?_⟩
    cases ran : script.run (Machine.serve host limit fuel) Run.done machine with
    | none =>
        simp only [conclude, Tails.handOver_deferred, run_bind_none ran] at concluded
        cases concluded
    | some ended =>
        rw [first.eq_of_run ran] at ran
        rwa [conclude_of_run_eq (run_bind ran next)] at concluded

/-- A script goes on as what follows the answer that it runs to. -/
theorem GoesOn.of_bind
    {script : Script Answer}
    {next : Answer → Script Step}
    {answer : Answer}
    (first : script.RunsTo host limit machine answer between)
    (second : (next answer).GoesOn host limit between steps other after) :
    (script.bind next).GoesOn host limit machine steps other after :=
  (first.goesOn next).trans_at_once second

/-- A step that amounts to a script is handed over to it. -/
theorem goesOn_defer
    {step : Step}
    (amounts : Machine.stepScript host step = .inr script)
    (machine : Machine) :
    (defer step).GoesOn host limit machine 1 script machine where
  hasResult _ := by
    rintro ⟨fuel, concluded⟩
    refine ⟨fuel + 1, ?_⟩
    change Machine.serve host limit (fuel + 1) (.finish step) machine = _
    rw [Machine.serve_finish, amounts]
    exact concluded
  takes {fuel outcome} concluded := by
    change Machine.serve host limit fuel (.finish step) machine = _ at concluded
    cases fuel with
    | zero => cases concluded
    | succ fuel =>
        rw [Machine.serve_finish, amounts] at concluded
        exact ⟨fuel, outcome, rfl, concluded⟩

/-- A list is handed over and finished on the same level. -/
theorem goesOn_tail_list
    {store : Store}
    {items : List Value}
    {head ending : Value}
    (spells : store.Spells form (head :: items) ending)
    (machine : Machine) :
    (tail scope form).GoesOn host limit machine 1 (Evaluation.script host scope form) machine := by
  cases spells with
  | pair => exact goesOn_defer rfl machine

end Script

/-! Lists. -/

namespace Application

variable
  {base : Store}
  {name : String}
  {operands : Value}
  {forms values : List Value}
  {machine ready last : Machine}

theorem runsTo_operandsFrom
    (spells : base.Spells operands forms .nil)
    (inTurn : Machine.ServesInTurn host limit base scope forms machine values last)
    {steps : Nat}
    (enough : forms.length < steps)
    (sofar : List Value) :
    (operandsFrom scope steps sofar operands).RunsTo host limit machine (sofar.reverse ++ values)
      last := by
  induction inTurn generalizing operands steps sofar with
  | nothing machine =>
      cases spells
      obtain ⟨steps, rfl⟩ := Nat.exists_eq_add_of_lt enough
      rw [List.append_nil]
      exact ⟨0, rfl⟩
  | @form form value forms values machine between last keeps served _ inductionHypothesis =>
      obtain ⟨steps, rfl⟩ : ∃ fewer, steps = fewer + 1 :=
        ⟨steps - 1, by rw [List.length_cons] at enough; omega⟩
      cases spells with
      | @pair address _ tail _ _ found spells =>
          have rest := inductionHypothesis spells (Nat.lt_of_succ_lt_succ enough) (value :: sofar)
          rw [List.reverse_cons, List.append_assoc] at rest
          have viewed :
              (Script.view fun store => store.pairAt address).RunsTo host limit machine
                ⟨form, tail⟩ machine := by
            rw [← Store.pairAt_eq (keeps.pairs found)]
            exact Script.runsTo_view _ machine
          exact .bind viewed (.bind (Script.runsTo_evaluate served) rest)

/-- The operands of a list are evaluated with enough steps for all of them. -/
theorem exists_run_operandValues
    (spells : base.Spells operands forms .nil)
    (keeps : base.KeepsCode machine.store) :
    ∃ steps,
      forms.length < steps ∧
        ∀ serving : Request → Run Value,
          (operandValues scope operands).run serving Run.done machine =
            (operandsFrom scope steps [] operands).run serving Run.done machine := by
  have isLast (address : Nat) : Value.nil ≠ .pair address := nofun
  have here := spells.of_pairs keeps.pairs
  have isList : machine.store.isList operands = true := by
    rw [Store.isList, Store.chainEnd?_of_spells here isLast]
  have fits := here.length_le isLast
  refine ⟨machine.store.pairs.size + 1 + Fuel.ample, by omega, fun serving => ?_⟩
  simp only [operandValues, Script.view, bind, Script.bind, Script.run, isList]

theorem runsTo_operandValues
    (spells : base.Spells operands forms .nil)
    (keeps : base.KeepsCode machine.store)
    (inTurn : Machine.ServesInTurn host limit base scope forms machine values last) :
    (operandValues scope operands).RunsTo host limit machine values last := by
  obtain ⟨steps, enough, same⟩ := exists_run_operandValues spells keeps
  obtain ⟨fuel, ran⟩ := runsTo_operandsFrom spells inTurn enough []
  exact ⟨fuel, (same _).trans ran⟩

theorem run_located
    {serving : Request → Run Value}
    {script : Script Step}
    {result : Except Unwind Step}
    {last : Machine}
    (ran : script.run serving Run.done machine = some (result, last))
    (form : Value) :
    (script.attempt.bind (locate form)).run serving Run.done machine =
      (locate form result).run serving Run.done last := by
  have attempted := @Script.run_attempt Step serving Run.done machine script
  rw [ran] at attempted
  exact Script.run_bind attempted _

theorem run_located_none
    {serving : Request → Run Value}
    {script : Script Step}
    (ran : script.run serving Run.done machine = none)
    (form : Value) :
    (script.attempt.bind (locate form)).run serving Run.done machine = none := by
  have attempted := @Script.run_attempt Step serving Run.done machine script
  rw [ran] at attempted
  exact Script.run_bind_none attempted _

/-- A script goes on as it does when a form is written into its faults. -/
theorem goesOn_located
    (script : Script Step)
    (form : Value)
    (machine : Machine) :
    (script.attempt.bind (locate form)).GoesOn host limit machine 0 script machine := by
  constructor
  · rintro result last isPlaced ⟨fuel, concluded⟩
    refine ⟨fuel, ?_⟩
    revert concluded
    cases ran : script.run (Machine.serve host limit fuel) Run.done machine with
    | none =>
        simp only [Script.conclude, Tails.handOver_deferred, ran]
        rintro ⟨⟩
    | some ended =>
        obtain ⟨reason | step, after⟩ := ended
        · simp only [Script.conclude, Tails.handOver_deferred, run_located ran, ran]
          rintro ⟨⟩
          rw [run_locate_told form fun expression => Except.error.inj (isPlaced expression)]
          rfl
        · simp only [Script.conclude, Tails.handOver_deferred, run_located ran, ran]
          exact id
  · intro fuel outcome concluded
    refine ⟨fuel, ?_⟩
    revert concluded
    cases ran : script.run (Machine.serve host limit fuel) Run.done machine with
    | none =>
        simp only [Script.conclude, Tails.handOver_deferred, run_located_none ran]
        rintro ⟨⟩
    | some ended =>
        obtain ⟨reason | step, after⟩ := ended
        · simp only [Script.conclude, Tails.handOver_deferred, ran]
          exact fun _ => ⟨_, rfl, rfl⟩
        · simp only [Script.conclude, Tails.handOver_deferred, run_located ran, ran]
          exact fun concluded => ⟨_, rfl, concluded⟩

/-- A call goes on with its operands, and then with what its head means. -/
theorem exists_goesOn_operands
    {callee : Value}
    (spells : base.Spells form (.symbol name :: forms) .nil)
    (keeps : base.KeepsCode machine.store)
    (ordinary : memberName? name = none)
    (found : machine.store.lookup? scope name = some callee)
    (applied : takesForms callee = false) :
    ∃ operands,
      base.Spells operands forms .nil ∧
        (Evaluation.script host scope form).GoesOn host limit machine 0
          ((operandValues scope operands).bind fun values =>
            (apply host callee values).attempt.bind (locate form))
          machine := by
  cases spells with
  | @pair address _ operands _ _ pair spells =>
      have reached (serving : Request → Run Value) :
          ((headOf machine.store scope (.symbol name)).meaning host scope operands).run serving
              Run.done machine =
            some (.ok (.callee callee), machine) := by
        simp only [headOf, ordinary, found]
        rfl
      have dispatched :
          (Evaluation.script host scope (.pair address)).GoesOn host limit machine 0
            (dispatch host scope (.pair address) callee operands) machine :=
        .of_run_eq fun serving =>
          run_eq_use (Store.pairAt_eq (keeps.pairs pair)) (reached serving)
      rw [dispatch_eq scope _ operands applied] at dispatched
      exact ⟨operands, spells, dispatched⟩

/-- A call goes on as the application of what its head means to the values of its operands. -/
theorem goesOn_call
    {callee : Value}
    (spells : base.Spells form (.symbol name :: forms) .nil)
    (keeps : base.KeepsCode machine.store)
    (ordinary : memberName? name = none)
    (found : machine.store.lookup? scope name = some callee)
    (applied : takesForms callee = false)
    (inTurn : Machine.ServesInTurn host limit base scope forms machine values ready) :
    (Evaluation.script host scope form).GoesOn host limit machine 0 (apply host callee values)
      ready := by
  obtain ⟨operands, spellsOperands, goesOn⟩ :=
    exists_goesOn_operands spells keeps ordinary found applied
  refine goesOn.trans_at_once ?_
  exact .of_bind (runsTo_operandValues spellsOperands keeps inTurn) (goesOn_located _ _ ready)

/-- A special form goes on as what it does with its operands. -/
theorem goesOn_use
    {keyword : SpecialForm}
    (spells : base.Spells form (.symbol name :: forms) .nil)
    (keeps : base.KeepsCode machine.store)
    (ordinary : memberName? name = none)
    (found : machine.store.lookup? scope name = some (.special keyword))
    (accepted : keyword.arity.refuses? forms.length = none) :
    (Evaluation.script host scope form).GoesOn host limit machine 0
      (keyword.script host scope forms) machine :=
  .of_run_eq fun _ => run_use_of_spells (spells.of_pairs keeps.pairs) ordinary found accepted

end Application

end SmallScheme
