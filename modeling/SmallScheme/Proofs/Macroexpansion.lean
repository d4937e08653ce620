import SmallScheme.Proofs.MacroAssignment
import SmallScheme.Proofs.Script.Sequence

namespace SmallScheme

/-!
# Expanding and evaluating the head of a form

Main result.  Expansion on demand takes the head of a form by its name, as the name is bound where
the form is expanded.  Evaluation takes a scoped identifier as its own scope binds it, a name with a
dot as a member, and any other head for what it evaluates to.  So both pick the same transformer, or
none, exactly if these make no difference.
-/

def Value.transformer? : Value → Option Nat
  | .transformer address => some address
  | _ => none

namespace Application

open Script

/-- What the head of a form amounts to for the evaluation. -/
inductive Meaning
  | member (name : String)
  | callee (value : Value)

namespace Meaning

def transformer? : Meaning → Option Nat
  | .member _ => none
  | .callee value => value.transformer?

/-- Make use of the operands. -/
def use
    (host : Host)
    (scope : Scope)
    (form operands : Value) : Meaning → Script Step
  | .member name => invoke host scope name operands
  | .callee value => dispatch host scope form value operands

end Meaning

/-- Find out what the head of a form amounts to. -/
def Head.meaning (host : Host) (scope : Scope) (operands : Value) : Head → Script Meaning
  | .member name => return .member name
  | .bound callee => return .callee callee
  | .free name => do return .callee (← freeCallee host scope name operands)
  | .operator form => do return .callee (← evaluate scope form)

/-- A form is evaluated by what its head amounts to. -/
theorem script_eq_meaning
    (host : Host)
    (scope : Scope)
    (address : Nat) :
    script host scope address =
      (view fun store => (headOf store scope (store.pairAt address).head,
          (store.pairAt address).tail)).bind fun found =>
        (found.1.meaning host scope found.2).bind fun meaning =>
          meaning.use host scope (.pair address) found.2 := by
  refine congrArg (Script.viewing _) (funext fun found => ?_)
  obtain ⟨head, operands⟩ := found
  have evaluated (callee : Script Value) :
      (callee.bind fun value => dispatch host scope (.pair address) value operands) =
        (callee.bind fun value => .done (.callee value)).bind fun meaning : Meaning =>
          meaning.use host scope (.pair address) operands :=
    (bind_assoc callee (fun value => .done (Meaning.callee value)) fun meaning =>
      meaning.use host scope (.pair address) operands).symm
  cases head with
  | member name => rfl
  | bound callee => rfl
  | free name => exact evaluated (freeCallee host scope name operands)
  | operator form => exact evaluated (evaluate scope form)

end Application

namespace Machine

/-- The value that evaluation gives an identifier with a binding. -/
def callee? (host : Host) (scope : Scope) (machine : Machine) : Value → Option Value
  | .symbol name => machine.store.lookup? scope name
  | .scoped name home =>
      (machine.atHome? host scope home name).or (machine.store.lookup? scope name)
  | _ => none

/-- For this head it makes no difference how expansion and evaluation find a transformer. -/
def PicksAlike
    (host : Host)
    (scope : Scope)
    (machine : Machine)
    (meaning : Application.Meaning) : Value → Prop
  | .symbol name =>
      match machine.store.lookup? scope name with
      | some value => value.transformer? = none ∨ memberName? name = none
      | none => meaning.transformer? = none
  | .scoped name home =>
      match machine.atHome? host scope home name with
      | some value =>
          (machine.store.lookup? scope name).bind Value.transformer? = value.transformer?
      | none => machine.store.isBound scope name ∨ meaning.transformer? = none
  | _ => meaning.transformer? = none

end Machine

namespace Store

theorem transformerUse?_pair
    {store : Store}
    {address : Nat}
    {head operands : Value}
    (found : store.pairs[address]? = some ⟨head, operands⟩)
    (scope : Scope) :
    Special.transformerUse? store scope (.pair address) =
      ((head.identifier?.bind (store.lookup? scope)).bind Value.transformer?).map
          (·, operands) := by
  unfold Special.transformerUse?
  simp only [pair?, found, bind, Option.bind_some]
  cases head.identifier? with
  | none => rfl
  | some name =>
      simp only [Option.bind_some]
      cases store.lookup? scope name with
      | none => rfl
      | some value => cases value <;> rfl

end Store

namespace Application

variable
  {host : Host}
  {limit fuel : Nat}
  {scope home : Scope}
  {machine middle : Machine}
  {meaning : Meaning}
  {name : String}
  {operands value : Value}

/-- Evaluating an identifier takes three units of fuel, and a level of nesting. -/
theorem room_of_served
    {form : Value}
    (served :
      Machine.serve host limit fuel (.evaluate scope form) machine = some (.ok value, middle)) :
    machine.depth < limit ∧ ∃ fewer, fuel = fewer + 3 := by
  rcases fuel with _ | fuel
  · cases served
  · cases Machine.serving_of_serve served with
    | nested opens room inside =>
        cases opens
        refine ⟨Nat.lt_of_not_le room, ?_⟩
        rcases fuel with _ | fuel
        · cases inside
        · cases Machine.serving_of_serve inside with
          | nested opens => cases opens
          | value amounts => cases amounts
          | followed _ _ following =>
              rcases fuel with _ | fuel
              · cases following
              · exact ⟨fuel, rfl⟩

theorem meaning_of_identifier
    (machine : Machine)
    {head : Value}
    (found : machine.callee? host scope head = some value)
    (ordinary : ∀ own, head = .symbol own → memberName? own = none)
    (room : machine.depth < limit)
    (fuel : Nat) :
    ((headOf machine.store scope head).meaning host scope operands).run
        (Machine.serve host limit (fuel + 3)) Run.done machine =
      some (.ok (.callee value), machine) := by
  cases head with
  | symbol own =>
      have bound : machine.store.lookup? scope own = some value := found
      simp only [headOf, ordinary own rfl, bound]
      rfl
  | «scoped» own home =>
      simp only [headOf, Head.meaning, Script.evaluate, bind, Script.bind, Script.run,
        Machine.serve_scoped machine found room fuel]
      rfl
  | _ => cases found

/-- What the head of a form is found to be, as far as the bindings of its name determine it. -/
theorem meaning_eq_of_reached
    {head : Value}
    (reached :
      ((headOf machine.store scope head).meaning host scope operands).run
          (Machine.serve host limit fuel) Run.done machine =
        some (.ok meaning, middle))
    (found : machine.callee? host scope head = some value)
    (ordinary : ∀ own, head = .symbol own → memberName? own = none) :
    meaning = .callee value := by
  cases head with
  | symbol own =>
      have bound : machine.store.lookup? scope own = some value := found
      simp only [headOf, ordinary own rfl, bound] at reached
      cases reached
      rfl
  | «scoped» own home =>
      simp only [headOf, Head.meaning, Script.evaluate, bind, Script.bind, Script.run] at reached
      cases served : Machine.serve host limit fuel (.evaluate scope (.scoped own home)) machine with
      | none =>
          rw [served] at reached
          cases reached
      | some outcome =>
          obtain ⟨result, last⟩ := outcome
          rw [served] at reached
          cases result with
          | error reason => cases reached
          | ok other =>
              cases reached
              obtain ⟨room, fewer, rfl⟩ := room_of_served served
              rw [Machine.serve_scoped machine found room fewer] at served
              cases served
              rfl
  | _ => cases found

theorem meaning_of_member
    {member : String}
    (isMember : memberName? name = some member)
    (reached :
      ((headOf machine.store scope (.symbol name)).meaning host scope operands).run
          (Machine.serve host limit fuel) Run.done machine =
        some (.ok meaning, middle)) :
    meaning = .member member := by
  simp only [headOf, isMember] at reached
  cases reached
  rfl

/-- Where the meaning of the head is found, the two pick alike exactly in the cases told. -/
theorem transformerUse?_eq_iff_of_reached
    {address : Nat}
    {head : Value}
    (found : machine.store.pairs[address]? = some ⟨head, operands⟩)
    (reached :
      ((headOf machine.store scope head).meaning host scope operands).run
          (Machine.serve host limit fuel) Run.done machine =
        some (.ok meaning, middle)) :
    Special.transformerUse? machine.store scope (.pair address) =
        meaning.transformer?.map (·, operands) ↔
      machine.PicksAlike host scope meaning head := by
  have injective : Function.Injective fun pick : Nat => (pick, operands) :=
    fun first second same => congrArg Prod.fst same
  have noPick :
      none = meaning.transformer?.map (·, operands) ↔ meaning.transformer? = none :=
    eq_comm.trans Option.map_eq_none_iff
  rw [Store.transformerUse?_pair found]
  cases head with
  | symbol name =>
      simp only [Value.identifier?, Option.bind_some, Machine.PicksAlike]
      cases member : memberName? name with
      | some own =>
          obtain rfl := meaning_of_member member reached
          cases bound : machine.store.lookup? scope name with
          | some value => simp [Meaning.transformer?]
          | none => simp [Meaning.transformer?]
      | none =>
          cases bound : machine.store.lookup? scope name with
          | some value =>
              obtain rfl := meaning_eq_of_reached reached bound fun own same => by
                cases same
                exact member
              simp [Meaning.transformer?]
          | none => exact noPick
  | «scoped» name home =>
      simp only [Value.identifier?, Option.bind_some, Machine.PicksAlike]
      have ordinary : ∀ own, Value.scoped name home = .symbol own → memberName? own = none := by
        rintro own ⟨⟩
      cases own : machine.atHome? host scope home name with
      | some value =>
          have callee : machine.callee? host scope (.scoped name home) = some value := by
            simp [Machine.callee?, own]
          obtain rfl := meaning_eq_of_reached reached callee ordinary
          exact (Option.map_injective injective).eq_iff
      | none =>
          cases bound : machine.store.lookup? scope name with
          | some value =>
              have callee : machine.callee? host scope (.scoped name home) = some value := by
                simp [Machine.callee?, own, bound]
              obtain rfl := meaning_eq_of_reached reached callee ordinary
              simp [Store.isBound, bound, Meaning.transformer?]
          | none =>
              simp only [Store.isBound, bound, Option.isSome_none, Bool.false_eq_true, false_or]
              exact noPick
  | _ => exact noPick

end Application

/--
A form is evaluated by what its head amounts to: for an identifier with a binding, its value in its
own scope, if that is still there, or else in the present one.  Expansion on demand picks the same
transformer as the evaluation, or none as the evaluation does, exactly if the head is one for which
it makes no difference that the name alone is looked up.
-/
theorem expansion_picks_what_evaluation_reaches_iff
    {host : Host}
    {limit : Nat}
    {scope : Scope}
    {machine : Machine}
    {address : Nat}
    {head operands : Value}
    (found : machine.store.pairs[address]? = some ⟨head, operands⟩) :
    (∀ {value : Value} (fuel : Nat),
        machine.callee? host scope head = some value →
        (∀ own, head = .symbol own → memberName? own = none) →
        machine.depth < limit →
        (Evaluation.script host scope (.pair address)).run (Machine.serve host limit (fuel + 3))
            Run.done machine =
          (Application.dispatch host scope (.pair address) value operands).run
            (Machine.serve host limit (fuel + 3)) Run.done machine) ∧
      ∀ {fuel : Nat} {meaning : Application.Meaning} {middle : Machine},
        ((Application.headOf machine.store scope head).meaning host scope operands).run
            (Machine.serve host limit fuel) Run.done machine =
          some (.ok meaning, middle) →
        (Evaluation.script host scope (.pair address)).run (Machine.serve host limit fuel) Run.done
              machine =
            (meaning.use host scope (.pair address) operands).run (Machine.serve host limit fuel)
              Run.done middle ∧
          (Special.transformerUse? machine.store scope (.pair address) =
              meaning.transformer?.map (·, operands) ↔
            machine.PicksAlike host scope meaning head) := by
  have pair := Store.pairAt_eq found
  have goesOn
      {fuel : Nat}
      {meaning : Application.Meaning}
      {middle : Machine}
      (reached :
        ((Application.headOf machine.store scope head).meaning host scope operands).run
            (Machine.serve host limit fuel) Run.done machine =
          some (.ok meaning, middle)) :
      (Evaluation.script host scope (.pair address)).run (Machine.serve host limit fuel) Run.done
          machine =
        (meaning.use host scope (.pair address) operands).run (Machine.serve host limit fuel)
          Run.done middle := by
    change (Application.script host scope address).run _ _ machine = _
    rw [Application.script_eq_meaning]
    simp only [Script.view, Script.bind, Script.run, pair]
    exact Script.run_bind reached _
  refine ⟨?_, ?_⟩
  · intro value fuel identified ordinary room
    exact goesOn (Application.meaning_of_identifier machine identified ordinary room fuel)
  · intro fuel meaning middle reached
    exact ⟨goesOn reached, Application.transformerUse?_eq_iff_of_reached found reached⟩

/-- A form whose head a macro has put there, and a scope that binds the name to something else. -/
def hiddenTransformer : Store :=
  { Store.empty with
    pairs := #[⟨.scoped "inner" ⟨1, [0]⟩, .nil⟩]
    frames := #[⟨[], []⟩, ⟨[("inner", .transformer 0)], []⟩, ⟨[("inner", .integer 2)], []⟩]
    transformers := #[⟨"inner", [], [⟨.nil, .integer 1⟩], ⟨1, [0]⟩⟩] }

/-- Evaluation uses the transformer, while expansion on demand finds none. -/
theorem hidden_transformer_is_reached :
    (Evaluation.script Host.absent ⟨2, [1, 0]⟩ (.pair 0)).run (Machine.serve Host.absent 16 3)
          Run.done ⟨hiddenTransformer, default, 0⟩ =
        (Application.dispatch Host.absent ⟨2, [1, 0]⟩ (.pair 0) (.transformer 0) .nil).run
          (Machine.serve Host.absent 16 3) Run.done ⟨hiddenTransformer, default, 0⟩ ∧
      Special.transformerUse? hiddenTransformer ⟨2, [1, 0]⟩ (.pair 0) ≠ some (0, .nil) := by
  have picks :=
    @expansion_picks_what_evaluation_reaches_iff Host.absent 16 ⟨2, [1, 0]⟩
      ⟨hiddenTransformer, default, 0⟩ 0 _ _ rfl
  have ordinary : ∀ own, Value.scoped "inner" ⟨1, [0]⟩ = .symbol own → memberName? own = none :=
    nofun
  refine ⟨picks.1 0 rfl ordinary (by decide), fun picked => ?_⟩
  have reached :
      ((Application.headOf hiddenTransformer ⟨2, [1, 0]⟩ (.scoped "inner" ⟨1, [0]⟩)).meaning
            Host.absent ⟨2, [1, 0]⟩ .nil).run
          (Machine.serve Host.absent 16 3) Run.done ⟨hiddenTransformer, default, 0⟩ =
        some (.ok (.callee (.transformer 0)), ⟨hiddenTransformer, default, 0⟩) :=
    Application.meaning_of_identifier ⟨hiddenTransformer, default, 0⟩ rfl ordinary (by decide) 0
  have alike : none = some 0 := (picks.2 reached).2.mp picked
  cases alike

/--
The use of a macro inside a block that hides another macro is evaluated to what the hidden one makes
of it, while its expansion stops at the name that is hidden.
-/
theorem expansion_stops_at_hidden_macros :
    writtenValue?
        "(define-syntax inner (syntax-rules () ((_) 1)))
          (define-syntax outer (syntax-rules () ((_) (inner))))
          (macroexpand '(outer))" =
        some "1" ∧
      writtenValue?
        "(define-syntax inner (syntax-rules () ((_) 1)))
          (define-syntax outer (syntax-rules () ((_) (inner))))
          (let ((inner (lambda () 2))) (outer))" =
        some "1" ∧
      writtenValue?
        "(define-syntax inner (syntax-rules () ((_) 1)))
          (define-syntax outer (syntax-rules () ((_) (inner))))
          (let ((inner (lambda () 2))) (macroexpand '(outer)))" =
        some "(inner)" := by
  decide +kernel

end SmallScheme
