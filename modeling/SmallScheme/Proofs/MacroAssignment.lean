import SmallScheme.Proofs.Store.Binding
import SmallScheme.Proofs.TemplateNames

namespace SmallScheme

/-!
# Assignments in expansions

Main result.  Where a template assigns a name of the scope of its macro, the expansion has a scoped
identifier as the target.  A reference to it reads the binding of the scope of the macro; the
assignment takes its name alone and changes the binding that is nearest to the use.  The two are the
same binding exactly if one frame holds the name for both scopes.
-/

/-- In the template the identifier stands for nothing captured and for no binding of its own. -/
structure Transformer.Introduces
    (transformer : Transformer)
    (store : Store)
    (template : Form)
    (captures : Captures)
    (name : String) : Prop where
  uncaptured : captures.lookup name = none
  unbound : ¬template.BindsInLists name
  known : store.isBound transformer.home name
  ordinary : name ≠ Capture.ellipsis

/-- The form of an assignment with these identifiers as keyword and target. -/
def Form.assigning (keyword name : String) (operand : Form) (value : Value) : Form :=
  .list [.identifier keyword (.symbol keyword), .identifier name (.symbol name), operand]
    (.atom .nil) value

namespace Transformer

variable
  {transformer : Transformer}
  {store after : Store}
  {template : Form}
  {captures : Captures}
  {literals : List String}

theorem Introduces.isCopied_iff
    {name : String}
    {copy : Value}
    (introduces : transformer.Introduces store template captures name) :
    (Form.identifier name (.symbol name)).IsCopied (transformer.expansionRule true store template)
        literals after captures copy ↔
      copy = .scoped name transformer.home := by
  unfold Form.IsCopied
  rw [introduces.uncaptured]
  constructor
  · intro copied
    exact copied.2 ⟨introduces.unbound, rfl, introduces.known⟩
  · intro isScoped
    refine ⟨fun free => ?_, fun _ => isScoped⟩
    exact (free.elim introduces.unbound fun unknown => unknown ⟨rfl, introduces.known⟩).elim

/-- The keyword and the target of a copied assignment are scoped identifiers. -/
theorem spells_of_assigning_copied
    {keyword name : String}
    {operand : Form}
    {value copy : Value}
    (keywordIntroduced : transformer.Introduces store template captures keyword)
    (nameIntroduced : transformer.Introduces store template captures name)
    (plain : ¬operand.isNamed Capture.ellipsis)
    (copied :
      (Form.assigning keyword name operand value).IsCopied
          (transformer.expansionRule true store template)
        literals after captures copy) :
    ∃ operandCopy,
      operand.IsCopied (transformer.expansionRule true store template) literals after captures
          operandCopy ∧
        after.Spells copy
          [.scoped keyword transformer.home, .scoped name transformer.home, operandCopy] .nil := by
  have ordinary {own : String} (different : own ≠ Capture.ellipsis) :
      ¬(Form.identifier own (.symbol own)).isNamed Capture.ellipsis := by
    simpa [Form.isNamed, Form.identifier?] using different
  obtain ⟨copies, ending, copiedItems, copiedTail, spells⟩ := copied
  obtain rfl : ending = .nil := copiedTail
  unfold Form.AreCopied at copiedItems
  rw [if_neg (ordinary keywordIntroduced.ordinary), if_neg (ordinary nameIntroduced.ordinary)]
    at copiedItems
  obtain ⟨keywordCopy, others, rfl, copiedKeyword, copiedOthers⟩ := copiedItems
  unfold Form.AreCopied at copiedOthers
  rw [if_neg (ordinary nameIntroduced.ordinary), if_neg plain] at copiedOthers
  obtain ⟨nameCopy, others, rfl, copiedName, copiedOthers⟩ := copiedOthers
  unfold Form.AreCopied at copiedOthers
  rw [if_neg plain] at copiedOthers
  obtain ⟨operandCopy, rfl, copiedOperand⟩ := copiedOthers
  rw [keywordIntroduced.isCopied_iff.mp copiedKeyword, nameIntroduced.isCopied_iff.mp copiedName]
    at spells
  exact ⟨operandCopy, copiedOperand, spells⟩

end Transformer

variable
  {host : Host}
  {limit : Nat}
  {machine middle : Machine}
  {scope home : Scope}
  {keyword name : String}
  {form operand value : Value}

/-- Whoever serves the requests: the value of the operand is assigned by the name of the target. -/
theorem Evaluation.run_assignment
    {serve : Request → Run Value}
    (handOver : Step → Run Step)
    (spells : machine.store.Spells form [.scoped keyword home, .scoped name home, operand] .nil)
    (assigns :
      serve (.evaluate scope (.scoped keyword home)) machine =
        some (.ok (.special .assignment), machine))
    (evaluated : serve (.evaluate scope operand) machine = some (.ok value, middle)) :
    (Evaluation.script host scope form).run serve handOver machine =
      some
        (match (Store.assign scope name value middle.store).1 with
          | .ok () => .ok (.value .unspecified)
          | .error fault => .error (.fault fault),
        { middle with store := (Store.assign scope name value middle.store).2 }) := by
  cases spells with
  | @pair address head tail _ _ found spells =>
      have operands :
          Store.listItems tail machine.store =
            (.ok [.scoped name home, operand], machine.store) := by
        unfold Store.listItems
        rw [StoreM.view_bind, Store.listItems?_of_spells spells]
        rfl
      have pair := Store.pairAt_eq found
      simp only [Evaluation.script, Application.script, bind, Script.bind, Script.view, Script.run,
        pair, Application.headOf, Script.evaluate, assigns, Script.ofResult, Application.dispatch,
        Application.special, Script.perform]
      obtain ⟨store, context, depth⟩ := machine
      obtain ⟨store', context', depth'⟩ := middle
      have two : SpecialForm.assignment.arity.refuses? 2 = none := rfl
      simp only [Script.run, operands, Script.bind, List.length_cons, List.length_nil, two,
        SpecialForm.script, Special.assignment, Script.nameFor, Value.identifier?, bind, pure,
        Script.evaluate, evaluated, Script.ofResult, Script.perform, Script.answer]
      unfold Store.assign
      cases store'.holderIn name scope.frames with
      | none => rfl
      | some holder => cases isRoot : holder.isRoot <;> simp only [isRoot] <;> rfl

namespace Machine

/-- What the scope of a macro binds the name to, if it is still there for a script one level on. -/
def atHome?
    (host : Host)
    (scope home : Scope)
    (name : String)
    (machine : Machine) : Option Value :=
  if holds host scope home { machine with depth := machine.depth + 1 } then
    machine.store.lookup? home name
  else
    none

/-- A scoped identifier with a binding has the value of its own scope, or else of the present
one. -/
theorem serve_scoped
    (machine : Machine)
    (found :
      (machine.atHome? host scope home name).or (machine.store.lookup? scope name) = some value)
    (room : machine.depth < limit)
    (fuel : Nat) :
    serve host limit (fuel + 3) (.evaluate scope (.scoped name home)) machine =
      some (.ok value, machine) := by
  have ran :
      (Evaluation.script host scope (.scoped name home)).run (serve host limit (fuel + 1)) Run.done
          { machine with depth := machine.depth + 1 } =
        some (.ok (.value value), { machine with depth := machine.depth + 1 }) := by
    refine (Script.run_bind (Eq.trans (Script.run_scopedNameValue host name rfl) ?_) _).trans rfl
    cases own : machine.atHome? host scope home name with
    | some held =>
        rw [own, Option.some_or] at found
        cases found
        rw [atHome?] at own
        rw [own]
    | none =>
        rw [own, Option.none_or] at found
        rw [atHome?] at own
        rw [own]
        simp only [Script.nameValue, bind, Script.bind, Script.view, Script.run, found]
        rfl
  simp only [serve, Run.nested, if_neg (Nat.not_le_of_lt room), stepScript, ran, Run.done,
    Nat.add_sub_cancel]

/-- As long as its own scope is there, a scoped identifier has the value of that. -/
theorem serve_scoped_held
    (machine : Machine)
    (held : Machine.holds host scope home { machine with depth := machine.depth + 1 })
    (found : machine.store.lookup? home name = some value)
    (room : machine.depth < limit)
    (fuel : Nat) :
    serve host limit (fuel + 3) (.evaluate scope (.scoped name home)) machine =
      some (.ok value, machine) :=
  serve_scoped machine (by rw [atHome?, if_pos held, found, Option.some_or]) room fuel

/-- An assignment ends as its operand does, or assigns the value of the operand by name. -/
theorem serve_assignment
    {fuel : Nat}
    (spells : machine.store.Spells form [.scoped keyword home, .scoped name home, operand] .nil)
    (held : Machine.holds host scope home { machine with depth := machine.depth + 2 })
    (assigns : machine.store.lookup? home keyword = some (.special .assignment))
    (room : machine.depth + 1 < limit)
    (evaluated :
      serve host limit (fuel + 3) (.evaluate scope operand)
          { machine with depth := machine.depth + 1 } =
        some (.ok value, middle)) :
    serve host limit (fuel + 5) (.evaluate scope form) machine =
      some
        (match (Store.assign scope name value middle.store).1 with
          | .ok () => .ok .unspecified
          | .error fault => .error (.fault fault),
        ⟨(Store.assign scope name value middle.store).2, middle.context, middle.depth - 1⟩) := by
  have free : ¬limit ≤ machine.depth := by omega
  have keywordServed :
      serve host limit (fuel + 3) (.evaluate scope (.scoped keyword home))
          { machine with depth := machine.depth + 1 } =
        some (.ok (.special .assignment), { machine with depth := machine.depth + 1 }) :=
    serve_scoped_held { machine with depth := machine.depth + 1 } held assigns room fuel
  have ran :
      (Evaluation.script host scope form).run (serve host limit (fuel + 3)) Run.done
          { machine with depth := machine.depth + 1 } =
        _ :=
    Evaluation.run_assignment Run.done spells keywordServed evaluated
  change Run.nested limit (serve host limit (fuel + 4) (.finish (.tail scope form))) machine = _
  have finished : serve host limit (fuel + 4) (.finish (.tail scope form))
    { machine with depth := machine.depth + 1 } = some
        (match (Store.assign scope name value middle.store).1 with
          | .ok () => .ok .unspecified
          | .error fault => .error (.fault fault),
          { middle with store := (Store.assign scope name value middle.store).2 }) := by
    simp only [serve, stepScript, ran]
    cases (Store.assign scope name value middle.store).1 <;> rfl
  rw [Run.nested, if_neg free, finished]

end Machine

/-- How a value is assigned by name in a scope, and what the name means in another scope then. -/
def Store.IsAssigned
    (scope home : Scope)
    (name : String)
    (value : Value)
    (before after : Store)
    (result : Except Unwind Value) : Prop :=
  match before.holderIn name scope.frames with
  | none => result = .error (.fault (.undefinedVariable name)) ∧ after = before
  | some holder =>
      if holder.isRoot then
        result = .error (.fault (.immutableScope name)) ∧ after = before
      else
        result = .ok .unspecified ∧
          after = before.modifyFrame holder.frame (fun frame => frame.assign name value) ∧
            after.lookup? home name =
              if before.bindingFrame? home name = some holder.frame then some value
              else before.lookup? home name

theorem Store.isAssigned_assign
    (scope home : Scope)
    (name : String)
    (value : Value)
    (before : Store) :
    before.IsAssigned scope home name value (Store.assign scope name value before).2
      (match (Store.assign scope name value before).1 with
        | .ok () => .ok .unspecified
        | .error fault => .error (.fault fault)) := by
  unfold IsAssigned Store.assign
  cases found : before.holderIn name scope.frames with
  | none => exact ⟨rfl, rfl⟩
  | some holder =>
      dsimp only
      by_cases isRoot : holder.isRoot
      · rw [if_pos isRoot, if_pos isRoot]
        exact ⟨rfl, rfl⟩
      · rw [if_neg isRoot, if_neg isRoot]
        obtain ⟨present, bound⟩ := exists_of_holderIn_eq found
        exact ⟨rfl, rfl, lookup?_assign bound value home⟩

/--
The target of an assignment that a template makes to a name of the scope of its macro is a scoped
identifier in every expansion.  When the expansion is evaluated, the binding nearest to the use is
assigned, or the assignment is refused for what that binding is.  A reference to the same identifier
reads the binding of the scope of the macro, before and after, while that scope is there: it sees
the assigned value if that scope has the name from the same frame, and otherwise what it saw before.
-/
theorem expanded_assignments_follow_the_use
    {store after : Store}
    {address : Nat}
    {operands expansion : Value}
    (expanded : Store.expandUse true address operands store = (.ok expansion, after)) :
    ∃ transformer rule,
      store.transformers[address]? = some transformer ∧ rule ∈ transformer.rules ∧
        transformer.ExpandsBy true rule operands expansion store after ∧
          ∀ {template operand : Form} {captures : Captures} {keyword name : String}
            {whole copy : Value} {machine : Machine},
            transformer.Introduces store template captures keyword →
            transformer.Introduces store template captures name →
            ¬operand.isNamed Capture.ellipsis →
            (Form.assigning keyword name operand whole).IsCopied
              (transformer.expansionRule true store template) transformer.literals machine.store
                  captures
              copy →
            ∃ operandCopy,
              operand.IsCopied (transformer.expansionRule true store template) transformer.literals
                  machine.store captures operandCopy ∧
                ∀ {host : Host} {limit fuel : Nat} {scope : Scope} {middle : Machine}
                  {value : Value},
                  Machine.holds host scope transformer.home
                    { machine with depth := machine.depth + 2 } →
                  machine.store.lookup? transformer.home keyword = some (.special .assignment) →
                  machine.depth + 1 < limit →
                  Machine.serve host limit (fuel + 3) (.evaluate scope operandCopy)
                      { machine with depth := machine.depth + 1 } =
                    some (.ok value, middle) →
                  ∃ result assigned,
                    Machine.serve host limit (fuel + 5) (.evaluate scope copy) machine =
                        some (result, ⟨assigned, middle.context, middle.depth - 1⟩) ∧
                      middle.store.IsAssigned scope transformer.home name value assigned result ∧
                        ∀ {elsewhere : Scope} {present : Value} {context : Context} {depth : Nat},
                          Machine.holds host elsewhere transformer.home
                            ⟨assigned, context, depth + 1⟩ →
                          assigned.lookup? transformer.home name = some present →
                          depth < limit →
                          Machine.serve host limit (fuel + 3)
                              (.evaluate elsewhere (.scoped name transformer.home))
                              ⟨assigned, context, depth⟩ =
                            some (.ok present, ⟨assigned, context, depth⟩) := by
  unfold Store.expandUse at expanded
  rw [StoreM.view_bind] at expanded
  obtain ⟨rule, member, expands⟩ := Transformer.expandBy_copied expanded
  unfold Store.transformerAt at member expands
  cases found : store.transformers[address]? with
  | none =>
      rw [found] at member
      cases member
  | some transformer =>
      rw [found] at member expands
      refine ⟨transformer, rule, rfl, member, expands, ?_⟩
      intro template operand captures keyword name whole copy machine keywordIntroduced
        nameIntroduced plain copied
      obtain ⟨operandCopy, copiedOperand, spells⟩ :=
        Transformer.spells_of_assigning_copied keywordIntroduced nameIntroduced plain copied
      refine ⟨operandCopy, copiedOperand, ?_⟩
      intro host limit fuel scope middle value held assigns room evaluated
      exact ⟨_, _, Machine.serve_assignment spells held assigns room evaluated,
        middle.store.isAssigned_assign scope transformer.home name value,
        fun {_ _ context depth} heldThere read room =>
          Machine.serve_scoped_held ⟨_, context, depth⟩ heldThere read room fuel⟩

/-- A macro that assigns `x` in a scope that binds it, and a scope inside that hides the binding. -/
def shadowedMacro : Store :=
  { Store.empty with
    pairs := #[⟨.symbol "set!", .pair 1⟩, ⟨.symbol "x", .pair 2⟩, ⟨.integer 1, .nil⟩]
    frames :=
      #[⟨[("set!", .special .assignment)], []⟩, ⟨[("x", .integer 0)], []⟩,
        ⟨[("x", .integer 5)], []⟩]
    transformers := #[⟨"m", [], [⟨.nil, .pair 0⟩], ⟨1, [0]⟩⟩] }

/-- The same store after the macro has been used. -/
def expandedMacro : Store :=
  { shadowedMacro with
    pairs :=
      shadowedMacro.pairs ++
        #[⟨.integer 1, .nil⟩, ⟨.scoped "x" ⟨1, [0]⟩, .pair 3⟩, ⟨.scoped "set!" ⟨1, [0]⟩, .pair 4⟩] }

/-- The binding that hides the other one is assigned, and the identifier is read as before. -/
theorem assignment_of_shadowed_macro :
    Store.expandUse true 0 .nil shadowedMacro = (.ok (.pair 5), expandedMacro) ∧
      ∃ assigned,
        Machine.serve Host.absent 16 5 (.evaluate ⟨2, [1, 0]⟩ (.pair 5))
            ⟨expandedMacro, default, 0⟩ =
          some (.ok .unspecified, ⟨assigned, default, 0⟩) ∧
        assigned.lookup? ⟨2, [1, 0]⟩ "x" = some (.integer 1) ∧
          Machine.serve Host.absent 16 3 (.evaluate ⟨2, [1, 0]⟩ (.scoped "x" ⟨1, [0]⟩))
              ⟨assigned, default, 0⟩ =
            some (.ok (.integer 0), ⟨assigned, default, 0⟩) := by
  have expanded : Store.expandUse true 0 .nil shadowedMacro = (.ok (.pair 5), expandedMacro) := rfl
  refine ⟨expanded, ?_⟩
  obtain ⟨transformer, rule, found, _, _, assigns⟩ := expanded_assignments_follow_the_use expanded
  cases found
  have introduced
      (name : String)
      (unbound : name ∉ (shadowedMacro.form (.pair 0)).binders [])
      (known : shadowedMacro.isBound ⟨1, [0]⟩ name)
      (ordinary : name ≠ Capture.ellipsis) :
      Transformer.Introduces ⟨"m", [], [⟨.nil, .pair 0⟩], ⟨1, [0]⟩⟩ shadowedMacro
        (shadowedMacro.form (.pair 0)) [] name :=
    ⟨rfl, fun binds => unbound ((Form.mem_binders _ []).mpr (.inr binds)), known, ordinary⟩
  have keyword := introduced "set!" (by decide) rfl (by decide)
  have target := introduced "x" (by decide) rfl (by decide)
  obtain ⟨operandCopy, rfl, serves⟩ :=
    @assigns (shadowedMacro.form (.pair 0)) (.atom (.integer 1)) [] "set!" "x" (.pair 0) (.pair 5)
      ⟨expandedMacro, default, 0⟩ keyword target (by decide)
      ⟨_, _,
        ⟨_, _, rfl, keyword.isCopied_iff.mpr rfl, _, _, rfl, target.isCopied_iff.mpr rfl, _,
            rfl, rfl⟩, rfl,
        .pair rfl (.pair rfl (.pair rfl .nothing))⟩
  obtain ⟨result, assigned, served, isAssigned, reads⟩ :=
    @serves Host.absent 16 0 ⟨2, [1, 0]⟩ _ _ rfl rfl (by decide) rfl
  obtain ⟨answered, rfl, _⟩ : result = .ok .unspecified ∧ assigned = _ ∧ _ := isAssigned
  rw [answered] at served
  exact ⟨_, served, rfl, reads rfl rfl (by decide)⟩

/--
Where the use hides the name, the assignment of a macro changes the hiding binding, while the
reference next to it reads the binding of the scope of the macro.
-/
theorem shadowed_assignment_misses_its_reference :
    writtenValue?
        "(define x 0) (define-syntax m (syntax-rules () ((_) (begin (set! x 1) x)))) (list (m) x)" =
        some "(1 1)" ∧
      writtenValue?
        "(define x 0) (define-syntax m (syntax-rules () ((_) (begin (set! x 1) x))))
          (let ((x 5)) (list (m) x))" =
        some "(0 1)" ∧
      writtenValue?
        "(define x 0) (define-syntax m (syntax-rules () ((_) (begin (set! x 1) x))))
          (let ((x 5)) (m)) x" =
        some "0" := by
  decide +kernel

end SmallScheme
