import SmallScheme.Proofs.Realm.Code

namespace SmallScheme

/-!
# Runs of code set apart, from two scopes

Served from two scopes, code that is set apart has the same outcome and leaves the same machine, if
in the run from the one scope its operators have the values that are known of them and the scopes
that its identifiers bring along are still there.
-/

open Script

/-- The application of a form that waits for the value of its operator. -/
abbrev Pending.operator
    (host : Host)
    (scope : Scope)
    (form head operands : Value) : Pending :=
  .construct (.evaluate scope head) fun result => do
    let callee ← ofResult result
    Application.dispatch host scope form callee operands

/-- The value has just been returned to the application of the form, for its operator. -/
def Moment.Operates
    (host : Host)
    (form callee : Value)
    (moment : Moment) : Prop :=
  moment.activity = .returning (.ok callee) ∧
    ∃ (scope : Scope) (head operands : Value) (rest : List Pending),
      moment.pending = .operator host scope form head operands :: rest

variable
  {realm : Realm}
  {operators : Operators}
  {here there : Scope}
  {size : Sizes}
  {host : Host}
  {limit : Nat}

/--
From the moment on the operators of lists have only values that are known of them, and where the
scope of a macro is needed in the one scope, it is still there for both.
-/
structure Moment.Heeds
    (host : Host)
    (limit : Nat)
    (operators : Operators)
    (here there : Scope)
    (moment : Moment) : Prop where
  operators :
    ∀ (later : Moment) (address : Nat) (callee : Value),
      Reaches host limit moment later →
      later.Operates host (.pair address) callee →
      operators.allows address callee
  homes :
    ∀ (later : Moment) (home : Scope),
      Reaches host limit moment later →
      later.activity = .serving (.reach here home) →
      later.machine.holds host here home ∧ later.machine.holds host there home

theorem Moment.Heeds.reaching
    {moment later : Moment}
    (heeds : moment.Heeds host limit operators here there)
    (reaches : Reaches host limit moment later) :
    later.Heeds host limit operators here there where
  operators last address callee fromLater :=
    heeds.operators last address callee (reaches.trans fromLater)
  homes last home fromLater := heeds.homes last home (reaches.trans fromLater)

/-- Whether scopes are still there is told as the host has it, or there is no fuel for telling. -/
def Machine.Tells (host : Host) (serve : Request → Run Value) : Prop :=
  (∀ scope home machine, serve (.reach scope home) machine = none) ∨
    ∀ scope home machine,
      serve (.reach scope home) machine =
          Run.done (.boolean (machine.holds host scope home)) machine

theorem Machine.tells_serve
    (fuel : Nat) :
    Tells host (serve host limit fuel) := by
  cases fuel with
  | zero => exact .inl fun _ _ _ => rfl
  | succ fuel => exact .inr fun _ _ _ => rfl

/-- The requests are served in the same way, and what comes of them is within the realm. -/
def Machine.ServesAlike
    (realm : Realm)
    (serve : Request → Run Value)
    (first second : Request)
    (machine : Machine) : Prop :=
  serve first machine = serve second machine ∧
    ∀ result last,
      serve first machine = some (result, last) →
      Machine.Ends realm (Value.Belongs realm) machine.store result last

/-- Whatever requests for the same code are made from the two scopes, they are served alike. -/
def Machine.ServesAlongside
    (realm : Realm)
    (operators : Operators)
    (here there : Scope)
    (host : Host)
    (limit : Nat)
    (serve : Request → Run Value) : Prop :=
  ∀ (first second : Request) (machine : Machine) (pending : List Pending),
    first.Alongside realm operators here there machine.store.sizes second →
    machine.Within realm →
    Moment.Heeds host limit operators here there ⟨.serving first, pending, machine⟩ →
    Machine.ServesAlike realm serve first second machine

theorem Script.ComesTo.run
    {serve : Request → Run Value}
    {script last : Script Step}
    {machine arrived : Machine}
    (comes : ComesTo last arrived script machine) :
    script.run serve Run.done machine = last.run serve Run.done arrived := by
  induction comes with
  | here => rfl
  | viewing _ inductionHypothesis => exact inductionHypothesis
  | acting _ inductionHypothesis => exact inductionHypothesis
  | switching _ inductionHypothesis => exact inductionHypothesis
  | deferring _ inductionHypothesis => exact inductionHypothesis

/-- The two runs end with the same machine and with the same step, or with the same code. -/
inductive Script.RanAlongside
    (realm : Realm)
    (operators : Operators)
    (here there : Scope)
    (before : Store) :
    Option (Except Unwind Step × Machine) → Option (Except Unwind Step × Machine) → Prop
  | endless : RanAlongside realm operators here there before none none
  | unwound {reason : Unwind} {last : Machine} :
      Machine.Ends realm (Step.Belongs realm) before (.error reason) last →
      RanAlongside realm operators here there before (some (.error reason, last))
        (some (.error reason, last))
  | handed {first second : Step} {last : Machine} :
      last.Within realm →
      before.Follows realm last.store →
      first.Alongside realm operators here there last.store.sizes second →
      RanAlongside realm operators here there before (some (.ok first, last))
        (some (.ok second, last))

namespace Script

theorem RanAlongside.since
    {before between : Store}
    {first second : Option (Except Unwind Step × Machine)}
    (ran : RanAlongside realm operators here there between first second)
    (follows : before.Follows realm between) :
    RanAlongside realm operators here there before first second := by
  cases ran with
  | endless => exact .endless
  | unwound ends => exact .unwound ⟨ends.1, follows.trans ends.2.1, ends.2.2⟩
  | handed within further steps => exact .handed within (follows.trans further) steps

/-- A list whose head is no name first asks for the value of what stands there. -/
private theorem comesTo_operator
    {scope : Scope}
    {machine : Machine}
    {address : Nat}
    {head operands : Value}
    (present : machine.store.pairAt address = ⟨head, operands⟩)
    (noName : ∀ name, head ≠ .symbol name) :
    ComesTo
      (.asking (.evaluate scope head) fun result => do
        let callee ← ofResult result
        Application.dispatch host scope (.pair address) callee operands)
      machine (Evaluation.script host scope (.pair address)) machine := by
  have isOperator : Application.headOf machine.store scope head = .operator head := by
    cases head with
    | symbol name => exact (noName name rfl).elim
    | _ => rfl
  refine .viewing ?_
  simp only [present, isOperator]
  exact .here

section Runs

variable
  {serve : Request → Run Value}
  (serves : Machine.ServesAlongside realm operators here there host limit serve)
  (reaches : Machine.IsServedByMoments host limit serve)
  (tells : Machine.Tells host serve)

include serves reaches

/-- What goes on alongside with whatever comes of two requests goes alongside with the requests. -/
private theorem run_asking
    {request other : Request}
    {next following : Except Unwind Value → Script Step}
    {machine : Machine}
    (requests : request.Alongside realm operators here there machine.store.sizes other)
    (within : machine.Within realm)
    {pending : List Pending}
    (heeds :
      Moment.Heeds host limit operators here there
        ⟨.serving request, .construct request next :: pending, machine⟩)
    (continues :
      ∀ (result : Except Unwind Value) (between : Machine),
        Machine.Ends realm (Value.Belongs realm) machine.store result between →
        Moment.Heeds host limit operators here there
          ⟨.returning result, .construct request next :: pending, between⟩ →
        RanAlongside realm operators here there between.store
          ((next result).run serve Run.done between)
          ((following result).run serve Run.done between)) :
    RanAlongside realm operators here there machine.store
      ((asking request next).run serve Run.done machine)
      ((asking other following).run serve Run.done machine) := by
  obtain ⟨same, ends⟩ := serves request other machine _ requests within heeds
  simp only [Script.run]
  rw [← same]
  cases served : serve request machine with
  | none => exact .endless
  | some outcome =>
      obtain ⟨result, between⟩ := outcome
      have ended := ends result between served
      have toResult := reaches (.construct request next :: pending) served
      exact (continues result between ended (heeds.reaching toResult)).since ended.2.1

include tells

/-- Scripts that go alongside end so, if the requests they make are served so. -/
theorem StepsAlongside.run
    {first second : Script Step}
    (alongside : StepsAlongside realm operators here there size first second)
    {machine : Machine}
    (within : machine.Within realm)
    (grown : size ≤ machine.store.sizes)
    {pending : List Pending}
    (heeds : Moment.Heeds host limit operators here there
        (.ofProgress pending (first.advance machine))) :
    RanAlongside realm operators here there machine.store (first.run serve Run.done machine)
      (second.run serve Run.done machine) := by
  induction alongside generalizing machine with
  | done steps => exact .handed within within.same (steps.mono grown)
  | unwind belongs => exact .unwound ⟨within, within.same, belongs.mono grown⟩
  | viewing _ inductionHypothesis =>
      exact inductionHypothesis machine.store ⟨grown, within.store⟩ within (le_refl _) heeds
  | acting keeps _ inductionHypothesis =>
      obtain ⟨store, context, depth⟩ := machine
      have follows := keeps store ⟨grown, within.store⟩
      have ran :=
        @inductionHypothesis store ⟨grown, within.store⟩ ⟨_, context, depth⟩
          ⟨follows.holds, within.context.mono follows.grown⟩ (le_refl _) heeds
      exact ran.since follows
  | @switching _ _ change _ _ keeps _ inductionHypothesis =>
      obtain ⟨store, context, depth⟩ := machine
      have switched : Machine.Within realm ⟨store, (change context).2, depth⟩ :=
        ⟨within.store, keeps _ context grown within.context⟩
      exact inductionHypothesis _ context grown within.context switched (le_refl _) heeds
  | asking requests _ inductionHypothesis =>
      refine run_asking serves reaches (requests.mono grown) within heeds
        fun result between ended heedsThen => ?_
      exact inductionHypothesis _ result (le_trans grown ended.2.1.grown) ended.2.2 ended.1
        (le_refl _) (heedsThen.reaching (.step rfl))
  | @reaching _ home next following _ inductionHypothesis =>
      obtain ⟨isHere, isThere⟩ :
          machine.holds host here home = true ∧ machine.holds host there home = true :=
        heeds.homes _ _ (.refl _) rfl
      have answered :
          Moment.Reaches host limit
            (.ofProgress pending ((asking (.reach here home) next).advance machine))
            ⟨.returning (.ok (.boolean true)), .construct (.reach here home) next :: pending,
              machine⟩ := by
        rw [← isHere]
        exact .step rfl
      have goesOn := answered.trans (.step rfl)
      simp only [Script.run]
      obtain untold | told := tells
      · rw [untold, untold]
        exact .endless
      · rw [told, told, isHere, isThere]
        exact inductionHypothesis _ grown within (le_refl _) (heeds.reaching goesOn)
  | deferring _ _ inductionHypothesis => exact inductionHypothesis within grown heeds

/-- A list of code goes alongside, if what it does with each value of its operator does. -/
private theorem run_list
    {address : Nat}
    {head operands : Value}
    {machine : Machine}
    (isApart : realm.apart.pairs address = some ⟨head, operands⟩)
    (headCoded : Coded realm operators machine.store.sizes head)
    (dispatches :
      ∀ (later : Sizes) (callee : Value),
        machine.store.sizes ≤ later →
        callee.Belongs realm later →
        operators.allows address callee →
        StepsAlongside realm operators here there later
          (Application.dispatch host here (.pair address) callee operands)
          (Application.dispatch host there (.pair address) callee operands))
    (within : machine.Within realm)
    {pending : List Pending}
    (heeds :
      Moment.Heeds host limit operators here there
        (.ofProgress pending ((Evaluation.script host here (.pair address)).advance machine))) :
    RanAlongside realm operators here there machine.store
      ((Evaluation.script host here (.pair address)).run serve Run.done machine)
      ((Evaluation.script host there (.pair address)).run serve Run.done machine) := by
  have present : machine.store.pairAt address = ⟨head, operands⟩ := by
    rw [Store.pairAt, within.store.apart isApart]
    rfl
  have noName : ∀ name, head ≠ .symbol name := by
    rintro name rfl
    cases headCoded with
    | constant isConstant => exact isConstant
  have first := @comesTo_operator host here machine address head operands present noName
  have second := @comesTo_operator host there machine address head operands present noName
  rw [first.advance] at heeds
  rw [first.run, second.run]
  refine run_asking serves reaches (.evaluate headCoded) within heeds
    fun result between ended heedsThen => ?_
  cases result with
  | error reason => exact .unwound ⟨ended.1, ended.1.same, ended.2.2⟩
  | ok callee =>
      have allowed := heedsThen.operators _ address callee
        (.refl _) ⟨rfl, here, head, operands, pending, rfl⟩
      have alongside := dispatches _ callee ended.2.1.grown ended.2.2 allowed
      exact alongside.run serves reaches tells ended.1 (le_refl _) (heedsThen.reaching (.step rfl))

end Runs

end Script

namespace Machine

variable
  (hostStays : host.Stays realm)
  (free : ¬realm.steady)

include hostStays free

omit free in
/-- Code goes alongside from two scopes, if its parts are served alike. -/
private theorem run_code
    {serve : Request → Run Value}
    (serves : ServesAlongside realm operators here there host limit serve)
    (reaches : IsServedByMoments host limit serve)
    (tells : Tells host serve)
    {form : Value}
    {machine : Machine}
    (coded : Coded realm operators machine.store.sizes form)
    (within : machine.Within realm)
    {pending : List Pending}
    (heeds :
      Moment.Heeds host limit operators here there
        (.ofProgress pending ((Evaluation.script host here form).advance machine))) :
    Script.RanAlongside realm operators here there machine.store
      ((Evaluation.script host here form).run serve Run.done machine)
      ((Evaluation.script host there form).run serve Run.done machine) := by
  by_cases isPair : ∃ address, form = .pair address
  · obtain ⟨address, rfl⟩ := isPair
    cases coded with
    | constant isConstant => exact isConstant.elim
    | quotation spells _ headCoded belong fits =>
        obtain _ | ⟨isApart, spells⟩ := spells
        refine Script.run_list serves reaches tells isApart headCoded
          (fun later callee grown _ allowed => ?_) within heeds
        obtain rfl := fits callee allowed
        exact alongside_quotation spells (belong.mono grown)
    | application spells _ headCoded coded fits =>
        obtain _ | ⟨isApart, spells⟩ := spells
        refine Script.run_list serves reaches tells isApart headCoded
          (fun later callee grown belongs allowed => ?_) within heeds
        exact alongside_dispatch hostStays spells
          (fun operand member => (coded operand member).mono grown) belongs (fits callee allowed)
  · have alongside : Script.StepsAlongside realm operators here there machine.store.sizes
        (Evaluation.script host here form) (Evaluation.script host there form) :=
      alongside_script coded fun address same => isPair ⟨address, same⟩
    exact alongside.run serves reaches tells within (le_refl _) heeds

omit hostStays free in
/-- A level is opened alike for two steps that are finished alike on it. -/
private theorem nested_alike
    {serve : Request → Run Value}
    {first second : Step}
    {machine : Machine}
    (within : machine.Within realm)
    (inside :
      machine.depth < limit →
      ServesAlike realm serve (.finish first) (.finish second)
        { machine with depth := machine.depth + 1 }) :
    Run.nested limit (serve (.finish first)) machine =
        Run.nested limit (serve (.finish second)) machine ∧
      ∀ result last,
        Run.nested limit (serve (.finish first)) machine = some (result, last) →
        Ends realm (Value.Belongs realm) machine.store result last := by
  unfold Run.nested
  by_cases full : limit ≤ machine.depth
  · simp only [if_pos full, true_and]
    intro result last unwound
    obtain ⟨rfl, rfl⟩ := Prod.mk.inj (Option.some.inj unwound)
    exact ⟨within, within.same, trivial⟩
  · obtain ⟨same, ends⟩ := inside (Nat.lt_of_not_le full)
    simp only [if_neg full, same, true_and]
    intro result last closed
    cases served : serve (.finish second) { machine with depth := machine.depth + 1 } with
    | none =>
        rw [served] at closed
        cases closed
    | some outcome =>
        obtain ⟨answer, between⟩ := outcome
        rw [served] at closed
        obtain ⟨rfl, rfl⟩ := Prod.mk.inj (Option.some.inj closed)
        obtain ⟨after, follows, isFine⟩ := ends answer between (same.trans served)
        exact ⟨⟨after.store, after.context⟩, follows, isFine⟩

/--
Requests for the same code from two scopes are served alike, with whatever fuel, if in the run from
the one scope its operators have the values that are known of them and the scopes that its
identifiers bring along are still there.
-/
theorem serve_alongside
    (fuel : Nat) :
    ServesAlongside realm operators here there host limit (serve host limit fuel) := by
  induction fuel with
  | zero =>
      intro first second machine pending _ _ _
      refine ⟨rfl, fun _ _ served => ?_⟩
      cases served
  | succ fuel inductionHypothesis =>
      intro first second machine pending requests within heeds
      have same
          {request : Request}
          (belongs : request.Belongs realm machine.store.sizes) :
          ServesAlike realm (serve host limit (fuel + 1)) request request machine :=
        ⟨rfl, fun _ _ => ends_of_serve hostStays free belongs within⟩
      cases requests with
      | same belongs => exact same belongs
      | @evaluate form coded =>
          refine nested_alike within fun room => ?_
          have opened := heeds.reaching (.step rfl)
          rw [Moment.ofOpening_of_free (Nat.not_le_of_lt room)] at opened
          exact inductionHypothesis _ _ { machine with depth := machine.depth + 1 } _
            (.finish (.tail coded)) ⟨within.store, within.context⟩ opened
      | finish steps =>
          cases steps with
          | same belongs => exact same belongs
          | @tail form coded =>
              have ran := run_code hostStays inductionHypothesis (isServedByMoments host limit fuel)
                (tells_serve fuel) coded within (heeds.reaching (.step rfl))
              simp only [ServesAlike, serve, stepScript]
              generalize ranFirst :
                (Evaluation.script host here form).run (serve host limit fuel) Run.done machine =
                  first at ran ⊢
              generalize (Evaluation.script host there form).run (serve host limit fuel) Run.done
                machine = second at ran ⊢
              cases ran with
              | endless =>
                  refine ⟨rfl, fun _ _ ended => ?_⟩
                  cases ended
              | unwound ends =>
                  refine ⟨rfl, fun result last unwound => ?_⟩
                  obtain ⟨rfl, rfl⟩ := Prod.mk.inj (Option.some.inj unwound)
                  exact ends
              | @handed handedFirst handedSecond last lastWithin follows steps =>
                  have scriptRuns :=
                    reaches_of_run (isServedByMoments host limit fuel)
                      (Evaluation.script host here form) pending ranFirst
                  have finishing := (heeds.reaching (.step rfl)).reaching scriptRuns
                  obtain ⟨alike, ends⟩ :=
                    inductionHypothesis _ _ last pending (.finish steps) lastWithin finishing
                  refine ⟨alike, fun result final served => ?_⟩
                  obtain ⟨after, further, isFine⟩ := ends result final served
                  exact ⟨after, follows.trans further, isFine⟩

end Machine

end SmallScheme
