import SmallScheme.Evaluation.Machine
import SmallScheme.Proofs.Script.Sequence
import SmallScheme.Proofs.Transformer.Binders
import SmallScheme.Proofs.Transformer.Copy
import SmallScheme.Proofs.Transformer.Settling
import SmallScheme.Session.Basic
import SmallScheme.Transformer.Basic

namespace SmallScheme

/-!
# Names in expansions

Main result.  An expansion is a copy of the template of a rule, in which captured forms stand for
the variables.  Every other plain identifier of the template is plain in the copy, and so means
what is bound around it there, exactly if a list of the template that is reached through lists alone
binds its name, or the scope of the macro does not.  A scope that is no longer there binds nothing.
-/

namespace Transformer

/-- The scope of the macro is still there and binds the name. -/
def BindsAtHome
    (transformer : Transformer)
    (isHeld : Bool)
    (store : Store)
    (name : String) : Prop :=
  isHeld ∧ store.isBound transformer.home name

/-- What the leaves of a template are copied to in an expansion. -/
def expansionRule
    (transformer : Transformer)
    (isHeld : Bool)
    (store : Store)
    (template : Form) : CopyRule where
  atom value copy := copy = value
  captured capture copy := capture = .one copy
  free name value copy :=
    match value with
    | .scoped _ _ => copy = value
    | _ =>
        (template.BindsInLists name ∨ ¬transformer.BindsAtHome isHeld store name →
            copy = .symbol name) ∧
          (¬template.BindsInLists name ∧ transformer.BindsAtHome isHeld store name →
            copy = .scoped name transformer.home)

variable
  {transformer : Transformer}
  {before after : Store}

/-- The setting of a template knows what its home binds, if the home is there. -/
theorem boundAtHome?_iff
    {isHeld : Bool}
    {literals locals : List String}
    {store : Store}
    {name : String}
    {home : Scope} :
    TemplateSetting.boundAtHome?
        ⟨literals, if isHeld then some transformer.home else none, locals⟩ name store = some home ↔
      home = transformer.home ∧ transformer.BindsAtHome isHeld store name := by
  unfold TemplateSetting.boundAtHome? BindsAtHome
  cases isHeld with
  | false => simp
  | true =>
      simp only [if_true, Option.filter_eq_some_iff, Option.some.injEq, true_and]
      constructor
      · rintro ⟨rfl, bound⟩
        exact ⟨rfl, bound⟩
      · rintro ⟨rfl, bound⟩
        exact ⟨rfl, bound⟩

theorem copyRule_implies
    (isHeld : Bool)
    (store : Store)
    (template : Form) :
    CopyRule.Implies
      (TemplateSetting.copyRule
        ⟨transformer.literals, if isHeld then some transformer.home else none,
          template.binders []⟩
        store)
      (transformer.expansionRule isHeld store template) where
  atom := id
  captured := id
  free := by
    rintro name value copy rfl
    have collected : (template.binders []).contains name ↔ template.BindsInLists name := by
      rw [List.contains_iff_mem, Form.mem_binders]
      exact or_iff_right List.not_mem_nil
    unfold expansionRule
    dsimp only
    split
    case h_1 => rfl
    case h_2 plain =>
      rw [TemplateSetting.freeIdentifier_plain _ _ _ plain]
      by_cases binds : (template.binders []).contains name
      · rw [if_pos binds]
        exact ⟨fun _ => rfl, fun unbound => (unbound.1 (collected.mp binds)).elim⟩
      · rw [if_neg binds]
        cases found : TemplateSetting.boundAtHome? _ name store with
        | some home =>
            obtain ⟨rfl, bound⟩ := boundAtHome?_iff.mp found
            refine ⟨?_, fun _ => rfl⟩
            rintro (isBinder | free)
            · exact (binds (collected.mpr isBinder)).elim
            · exact (free bound).elim
        | none =>
            refine ⟨fun _ => rfl, fun bound => ?_⟩
            cases found.symm.trans (boundAtHome?_iff.mpr ⟨rfl, bound.2⟩)

/-- The expansion by a rule copies its template as it is once the captures have been settled. -/
def ExpandsBy
    (transformer : Transformer)
    (isHeld : Bool)
    (rule : Rule)
    (operands expansion : Value)
    (before after : Store) : Prop :=
  ∃ captures : Captures,
    (before.form rule.pattern).matchForm before transformer.literals operands [] = some captures ∧
      let (settled, store) := captures.settle before
      let template := store.form rule.template
      template.IsCopied (transformer.expansionRule isHeld before template) transformer.literals
          after
        settled expansion

theorem expandBy_copied
    {isHeld : Bool}
    {operands expansion : Value}
    {rules : List Rule}
    (expanded : transformer.expandBy isHeld operands rules before = (.ok expansion, after)) :
    ∃ rule ∈ rules, transformer.ExpandsBy isHeld rule operands expansion before after := by
  induction rules with
  | nil => cases expanded
  | cons rule rest inductionHypothesis =>
      unfold expandBy at expanded
      rw [StoreM.view_bind] at expanded
      cases matched :
          (before.form rule.pattern).matchForm before transformer.literals operands [] with
      | some captures =>
          rw [matched] at expanded
          obtain ⟨settled, store, settles, filled⟩ := StoreM.bind_eq_ok_iff.mp expanded
          have same := StoreM.change_eq_ok_iff.mp settles
          rw [StoreM.view_bind] at filled
          obtain ⟨grows, _⟩ := Captures.settle_agree captures before
          rw [same] at grows
          obtain ⟨_, copied⟩ := Form.fill_copied grows.frames filled
          refine ⟨rule, List.mem_cons_self, captures, matched, ?_⟩
          rw [same]
          exact copied.loosen (copyRule_implies isHeld before _) (.refl _)
      | none =>
          rw [matched] at expanded
          obtain ⟨other, member, expands⟩ := inductionHypothesis expanded
          exact ⟨other, .tail _ member, expands⟩

end Transformer

/--
Every expansion is a copy of the template of a rule.  An identifier of the template that stands for
nothing captured and is no scoped one is plain in the copy exactly if lists of the template bind it
or the scope of the macro does not, which binds nothing once it is gone.  Evaluated there, a plain
one means its nearest binding, and any other one what the scope of the macro binds, as long as that
scope is there.
-/
theorem template_names_stay_plain
    {store after : Store}
    {isHeld : Bool}
    {address : Nat}
    {operands expansion : Value}
    (expanded : Store.expandUse isHeld address operands store = (.ok expansion, after)) :
    (∃ transformer rule,
        store.transformers[address]? = some transformer ∧ rule ∈ transformer.rules ∧
          transformer.ExpandsBy isHeld rule operands expansion store after) ∧
      ∀ (host : Host) (serve : Request → Run Value) (handOver : Step → Run Step)
        (scope home : Scope) (name : String) (value : Value) (machine : Machine),
        (machine.store.lookup? scope name = some value →
            (Evaluation.script host scope (.symbol name)).run serve handOver machine =
              some (.ok (.value value), machine)) ∧
          (serve (.reach scope home) machine = Run.done (.boolean true) machine →
            machine.store.lookup? home name = some value →
            (Evaluation.script host scope (.scoped name home)).run serve handOver machine =
              some (.ok (.value value), machine)) := by
  constructor
  · unfold Store.expandUse at expanded
    rw [StoreM.view_bind] at expanded
    obtain ⟨rule, member, expands⟩ := Transformer.expandBy_copied expanded
    unfold Store.transformerAt at member expands
    cases found : store.transformers[address]? with
    | some transformer =>
        rw [found] at member expands
        exact ⟨transformer, rule, rfl, member, expands⟩
    | none =>
        rw [found] at member
        cases member
  · intro host serve handOver scope home name value machine
    constructor
    · intro found
      simp only [Evaluation.script, Script.nameValue, bind, Script.bind, Script.view, Script.run,
        found]
      rfl
    · intro isThere found
      have looked :
          (Script.scopedNameValue host scope home name).run serve handOver machine = _ :=
        Script.run_scopedNameValue host name isThere
      rw [if_pos rfl, found] at looked
      exact Script.run_bind looked _

/-- A session without the library and without a host. -/
def bareSettings : Settings :=
  ⟨16, false, Host.absent⟩

/-- What a text that evaluates to a value is written as in a bare session. -/
def writtenValue? (source : String) : Option String :=
  match (Session.start bareSettings).evaluateText bareSettings source with
  | some (.ok value, session) => session.machine.store.written? value
  | _ => none

/-- A macro whose template binds the name `x`, in a scope that binds it too. -/
def bindingMacro : String :=
  "(define x 10) (define-syntax m (syntax-rules () ((_ e) (let ((x 1)) (list x e))))) "

/-- The use of the macro is expanded to a block, whose body reads the local binding. -/
theorem expansion_of_binding_macro :
    writtenValue? (bindingMacro ++ "(m 7)") = some "(1 7)" ∧
      ∃ operands session expansion after,
        (Session.start bareSettings).evaluateText bareSettings (bindingMacro ++ "'(y)") =
            some (.ok operands, session) ∧
          Store.expandUse true 0 operands session.machine.store = (.ok expansion, after) ∧
          after.written? expansion = some "(let ((x 1)) (list x y))" ∧
          ∃ transformer rule,
            session.machine.store.transformers[0]? = some transformer ∧
              transformer.ExpandsBy true rule operands expansion session.machine.store after := by
  refine ⟨by decide +kernel, ?_⟩
  have shape :
      ((Session.start bareSettings).evaluateText bareSettings (bindingMacro ++ "'(y)")).any
        (fun outcome =>
          match outcome.1 with
          | .error _ => false
          | .ok operands =>
              match Store.expandUse true 0 operands outcome.2.machine.store with
              | (.error _, _) => false
              | (.ok expansion, after) =>
                  after.written? expansion == some "(let ((x 1)) (list x y))") := by
    decide +kernel
  obtain ⟨⟨result, session⟩, evaluated, facts⟩ := (Option.any_eq_true _ _).mp shape
  cases result with
  | error failure => cases facts
  | ok operands =>
      dsimp only at facts
      cases ran : Store.expandUse true 0 operands session.machine.store with
      | mk answer after =>
          rw [ran] at facts
          cases answer with
          | error fault => cases facts
          | ok expansion =>
              obtain ⟨transformer, rule, found, _, expands⟩ := (template_names_stay_plain ran).1
              exact ⟨operands, session, expansion, after, evaluated, ran, eq_of_beq facts,
                transformer, rule, found, expands⟩

/--
In a list the template of a macro binds the name for its own block; put under an unquote, or into a
vector, the same block reads the binding in the scope of the macro.
-/
theorem blocks_under_marks_bind_nothing :
    writtenValue?
        "(define x 10) (define-syntax m (syntax-rules () ((_) (list (let ((x 1)) x))))) (m)" =
        some "(1)" ∧
      writtenValue?
        "(define x 10) (define-syntax m (syntax-rules () ((_) `(,(let ((x 1)) x))))) (m)" =
        some "(10)" ∧
      writtenValue?
        "(define x 10) (define-syntax m (syntax-rules () ((_) #((let ((x 1)) x))))) (m)" =
        some "#(10)" := by
  decide +kernel

end SmallScheme
