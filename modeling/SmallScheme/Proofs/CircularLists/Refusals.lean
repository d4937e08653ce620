import SmallScheme.Proofs.Chains
import SmallScheme.Proofs.Folds.Derived

namespace SmallScheme

/-!
# Circular lists that are refused

An operation that lists the items of an operand has a type fault for a circular list, whatever else
it is given.  That is so for primitives and for special forms, and so it is for folding from the
right, which reverses the list before anything is called.
-/

variable
  {host : Host}
  {limit depth : Nat}
  {base begun store : Store}
  {context : Context}
  {scope : Scope}
  {form value list : Value}
  {forms operands values others : List Value}
  {machine between last : Machine}

/-- With enough fuel the request is served with a type fault. -/
def Machine.Refuses
    (host : Host)
    (limit : Nat)
    (request : Request)
    (machine : Machine) : Prop :=
  ∃ fuel cause last,
    serve host limit fuel request machine = some (.error (.fault (.type cause)), last)

namespace StoreM

variable
  {First Second : Type}
  {action : StoreM First}

/-- The action has a type fault in this store. -/
def Refuses (action : StoreM First) (store : Store) : Prop :=
  ∃ cause after, action store = (.error (.type cause), after)

/-- What follows a refusal is not run. -/
theorem Refuses.bind
    (refuses : action.Refuses store)
    (next : First → StoreM Second) :
    StoreM.Refuses (action >>= next) store := by
  obtain ⟨cause, after, acted⟩ := refuses
  refine ⟨cause, after, ?_⟩
  change ExceptT.bindCont next (action store).1 (action store).2 = _
  rw [acted]
  rfl

/-- An action that answers leaves the refusal to what follows it. -/
theorem Refuses.of_bind
    {next : First → StoreM Second}
    {answer : First}
    {between : Store}
    (acted : action store = (.ok answer, between))
    (refuses : (next answer).Refuses between) :
    StoreM.Refuses (action >>= next) store := by
  obtain ⟨cause, after, refused⟩ := refuses
  refine ⟨cause, after, ?_⟩
  change ExceptT.bindCont next (action store).1 (action store).2 = _
  rw [acted]
  exact refused

end StoreM

namespace Script

variable
  {First Second : Type}

/-- With enough fuel the script runs into a type fault. -/
def IsRefused
    (host : Host)
    (limit : Nat)
    (script : Script First)
    (machine : Machine) : Prop :=
  ∃ fuel cause last,
    script.run (Machine.serve host limit fuel) Run.done machine =
      some (.error (.fault (.type cause)), last)

/-- With enough fuel the script and the step that it comes to end with a type fault. -/
def EndsRefused
    (host : Host)
    (limit : Nat)
    (script : Script Step)
    (machine : Machine) : Prop :=
  ∃ cause last, script.HasResult host limit machine (.error (.fault (.type cause))) last

namespace IsRefused

/-- A script that performs a refusing action is refused. -/
theorem of_perform
    {action : StoreM First}
    (refuses : action.Refuses store) :
    (perform action).IsRefused host limit ⟨store, context, depth⟩ := by
  obtain ⟨cause, after, acted⟩ := refuses
  exact ⟨0, cause, _, run_perform_error acted rfl⟩

/-- A script that evaluates a refused form is refused. -/
theorem of_evaluate
    (refuses : Machine.Refuses host limit (.evaluate scope form) machine) :
    (evaluate scope form).IsRefused host limit machine := by
  obtain ⟨fuel, cause, last, served⟩ := refuses
  exact ⟨fuel, cause, last, (run_evaluate scope form).trans served⟩

/-- A refused script is refused whatever follows it. -/
theorem bind
    {script : Script First}
    (refused : script.IsRefused host limit machine)
    (next : First → Script Second) :
    (script.bind next).IsRefused host limit machine := by
  obtain ⟨fuel, cause, last, ran⟩ := refused
  exact ⟨fuel, cause, last, run_bind_error ran next⟩

/-- What is refused after the answer has been found. -/
theorem of_bind
    {script : Script First}
    {next : First → Script Second}
    {answer : First}
    (first : script.RunsTo host limit machine answer between)
    (refused : (next answer).IsRefused host limit between) :
    (script.bind next).IsRefused host limit machine := by
  obtain ⟨fuel, ran⟩ := first
  obtain ⟨more, cause, last, refused⟩ := refused
  refine ⟨max fuel more, cause, last, ?_⟩
  rw [run_bind (run_mono (fun _ _ _ => Machine.serve_mono (Nat.le_max_left fuel more)) ran) next]
  exact run_mono (fun _ _ _ => Machine.serve_mono (Nat.le_max_right fuel more)) refused

/-- A refused script ends refused. -/
theorem ends
    {script : Script Step}
    (refused : script.IsRefused host limit machine) :
    script.EndsRefused host limit machine := by
  obtain ⟨fuel, cause, last, ran⟩ := refused
  refine ⟨cause, last, fuel, ?_⟩
  simp only [conclude, Tails.handOver_deferred, ran]
  rfl

end IsRefused

/-- What a script goes on with decides whether it ends refused. -/
theorem GoesOn.endsRefused
    {script next : Script Step}
    {steps : Nat}
    (goesOn : script.GoesOn host limit machine steps next between)
    (refused : next.EndsRefused host limit between) :
    script.EndsRefused host limit machine := by
  obtain ⟨cause, last, comes⟩ := refused
  exact ⟨cause, last, goesOn.hasResult (fun _ => rfl) comes⟩

end Script

open Script

namespace Machine

/-- A step is refused where the script it amounts to ends refused. -/
theorem refuses_finish
    {step : Step}
    {script : Script Step}
    (amounts : stepScript host step = .inr script)
    (refused : script.EndsRefused host limit machine) :
    Refuses host limit (.finish step) machine := by
  obtain ⟨cause, last, comes⟩ := refused
  obtain ⟨fuel, served⟩ := (goesOn_defer amounts machine).hasResult (fun _ => rfl) comes
  exact ⟨fuel, cause, last, served⟩

/-- A form is refused where there is room for a level and its script ends refused on that level. -/
theorem refuses_evaluate
    (room : depth < limit)
    (refused :
      (Evaluation.script host scope form).EndsRefused host limit ⟨store, context, depth + 1⟩) :
    Refuses host limit (.evaluate scope form) ⟨store, context, depth⟩ := by
  have refuses : Refuses host limit (.finish (.tail scope form)) ⟨store, context, depth + 1⟩ :=
    refuses_finish rfl refused
  obtain ⟨fuel, cause, ⟨after, later, depthAfter⟩, served⟩ := refuses
  obtain rfl : depthAfter = depth + 1 := depth_of_serve served
  exact ⟨fuel + 1, cause, _, serve_evaluate room served⟩

/-- The forms of the first values are evaluated before those of the others. -/
theorem ServesInTurn.split
    (inTurn : ServesInTurn host limit base scope forms machine (values ++ others) last) :
    ∃ before after between,
      forms = before ++ after ∧
        ServesInTurn host limit base scope before machine values between ∧
          ServesInTurn host limit base scope after between others last := by
  induction values generalizing forms machine with
  | nil => exact ⟨[], forms, machine, rfl, .nothing machine, inTurn⟩
  | cons value values inductionHypothesis =>
      cases inTurn with
      | form keeps served inTurn =>
          obtain ⟨before, after, between, rfl, first, further⟩ := inductionHypothesis inTurn
          exact ⟨_ :: before, after, between, rfl, .form keeps served first, further⟩

/-- Forms served in turn give one value each. -/
theorem ServesInTurn.length_eq
    (inTurn : ServesInTurn host limit base scope forms machine values last) :
    forms.length = values.length := by
  induction inTurn with
  | nothing => rfl
  | form _ _ _ inductionHypothesis => exact congrArg (· + 1) inductionHypothesis

end Machine

/-! Primitives. -/

namespace Store

/-- A list that comes round still does so when objects have been added. -/
theorem ComesRound.adds
    {after : Store}
    (comesRound : store.ComesRound value)
    (adds : store.Adds after) :
    after.ComesRound value := by
  have kept (whole part : Value) (isTail : store.HasTail whole part) :
      after.HasTail whole part := by
    obtain ⟨pair, found, isTail⟩ := isTail
    cases whole with
    | pair address => exact ⟨pair, adds.pairs found, isTail⟩
    | _ => cases found
  obtain ⟨part, leads, back⟩ := comesRound
  exact ⟨part, Relation.ReflTransGen.mono kept _ _ leads, Relation.TransGen.mono kept _ _ back⟩

/-- The items of a list that comes round are refused. -/
theorem ComesRound.refuses_listItems
    (comesRound : store.ComesRound list) :
    (Store.listItems list).Refuses store :=
  ⟨_, _, (isReadAs_of_comesRound comesRound).listItems⟩

end Store

namespace Listing

/-- An operation on the items of a list refuses one that comes round. -/
theorem refuses_itemsOf
    (comesRound : store.ComesRound list)
    (operation : String) :
    (itemsOf operation list).Refuses store := by
  unfold itemsOf StoreM.Refuses
  rw [StoreM.view_bind, (Store.isReadAs_of_comesRound comesRound).items]
  exact ⟨_, _, rfl⟩

/-- By induction on the lists that are copied: each of them is copied or refused. -/
theorem refuses_joinAll
    {lists : List Value}
    (comesRound : store.ComesRound list)
    (member : list ∈ lists)
    (last : Value) :
    (joinAll (lists ++ [last])).Refuses store := by
  have member := List.mem_reverse.mpr member
  rw [joinAll, List.reverse_append, List.reverse_singleton, List.singleton_append]
  dsimp only
  generalize lists.reverse = earlier at member
  induction earlier generalizing store last with
  | nil => cases member
  | cons first earlier inductionHypothesis =>
      rw [List.foldlM_cons]
      rcases Store.listItems_eq first store with ⟨items, spells, listed⟩ | ⟨cause, refused⟩
      · have others : list ∈ earlier := by
          rcases List.mem_cons.mp member with rfl | others
          · obtain ⟨_, _, refused⟩ := comesRound.refuses_listItems
            cases listed.symm.trans refused
          · exact others
        have adds : store.Adds (store.newListWithTail items last).2 :=
          Store.adds_newListFrom items.reverse last store
        have copied :
            (Store.listItems first >>= fun items =>
                StoreM.change (Store.newListWithTail items last)) store =
              (.ok (store.newListWithTail items last).1, (store.newListWithTail items last).2) :=
          StoreM.bind_eq_ok_iff.mpr ⟨items, store, listed, rfl⟩
        exact .of_bind copied (inductionHypothesis (comesRound.adds adds) _ others)
      · have refuses : (Store.listItems first).Refuses store := ⟨cause, store, refused⟩
        exact (refuses.bind _).bind _

end Listing

/-- Operands of no particular kind are all accepted. -/
theorem OperandKind.readAll_any
    (store : Store)
    (values : List Value) :
    readAll store .any values = .ok values := by
  induction values with
  | nil => rfl
  | cons value values inductionHypothesis =>
      rw [readAll, inductionHypothesis]
      rfl

namespace Primitive

/-- Primitives that go through a whole list among their operands. -/
inductive Walks (list : Value) : Primitive → List Value → Prop
  | length : Walks list (.listing .length) [list]
  | reverse : Walks list (.listing .reverse) [list]
  | listToVector : Walks list (.sequence .listToVector) [list]
  | append {lists : List Value} {last : Value} :
      list ∈ lists →
      Walks list (.listing .append) (lists ++ [last])

/-- A primitive refuses a circular list that it would go through. -/
theorem Walks.refuses
    {operation : Primitive}
    (walks : operation.Walks list operands)
    (comesRound : store.ComesRound list) :
    (operation.apply host operands).Refuses store := by
  cases walks with
  | length => exact (Listing.refuses_itemsOf comesRound "length").bind _
  | reverse => exact (Listing.refuses_itemsOf comesRound "reverse").bind _
  | listToVector => exact comesRound.refuses_listItems.bind _
  | @append lists last member =>
      have read :
          (OperandKind.any.readAll store (lists ++ [last]), store) =
            (.ok (lists ++ [last]), store) :=
        congrArg (·, store) (OperandKind.readAll_any store _)
      exact .of_bind read (Listing.refuses_joinAll comesRound member last)

end Primitive

namespace Application

/-- The operands that come before one that is refused are evaluated first. -/
theorem isRefused_operandsFrom
    {refused : Value}
    (inTurn : Machine.ServesInTurn host limit base scope forms machine values between)
    (spells : base.Spells value (forms ++ refused :: others) .nil)
    (keeps : base.KeepsCode between.store)
    (refuses : Machine.Refuses host limit (.evaluate scope refused) between)
    {steps : Nat}
    (enough : forms.length < steps)
    (sofar : List Value) :
    (operandsFrom scope steps sofar value).IsRefused host limit machine := by
  have viewed {machine : Machine} {address : Nat} {head tail : Value}
      (found : base.pairs[address]? = some ⟨head, tail⟩)
      (keeps : base.KeepsCode machine.store) :
      (view fun store => store.pairAt address).RunsTo host limit machine ⟨head, tail⟩ machine := by
    rw [← Store.pairAt_eq (keeps.pairs found)]
    exact runsTo_view _ machine
  induction inTurn generalizing value steps sofar with
  | nothing machine =>
      obtain ⟨steps, rfl⟩ := Nat.exists_eq_add_of_lt enough
      cases spells with
      | pair found _ =>
          exact .of_bind (viewed found keeps) ((IsRefused.of_evaluate refuses).bind _)
  | form keepsHere served _ inductionHypothesis =>
      obtain ⟨steps, rfl⟩ : ∃ fewer, steps = fewer + 1 :=
        ⟨steps - 1, by rw [List.length_cons] at enough; omega⟩
      cases spells with
      | pair found spells =>
          refine .of_bind (viewed found keepsHere) (.of_bind (runsTo_evaluate served) ?_)
          exact inductionHypothesis spells keeps refuses (Nat.lt_of_succ_lt_succ enough) _

/-- A call is refused as one of its operands is. -/
theorem endsRefused_operand
    {name : String}
    {callee refused : Value}
    (spells : base.Spells form (.symbol name :: (forms ++ refused :: others)) .nil)
    (keeps : base.KeepsCode machine.store)
    (ordinary : memberName? name = none)
    (found : machine.store.lookup? scope name = some callee)
    (applied : takesForms callee = false)
    (inTurn : Machine.ServesInTurn host limit base scope forms machine values between)
    (keepsBetween : base.KeepsCode between.store)
    (refuses : Machine.Refuses host limit (.evaluate scope refused) between) :
    (Evaluation.script host scope form).EndsRefused host limit machine := by
  obtain ⟨operands, spellsOperands, goesOn⟩ :=
    @exists_goesOn_operands host limit scope form base name _ machine callee spells keeps ordinary
      found applied
  obtain ⟨steps, enough, same⟩ := @exists_run_operandValues scope base operands _ machine
    spellsOperands keeps
  have fewer : forms.length < steps := by
    rw [List.length_append] at enough
    omega
  obtain ⟨fuel, cause, last, ran⟩ :=
    isRefused_operandsFrom inTurn spellsOperands keepsBetween refuses fewer []
  have isRefused : (operandValues scope operands).IsRefused host limit machine :=
    ⟨fuel, cause, last, (same _).trans ran⟩
  exact goesOn.endsRefused (isRefused.bind _).ends

/-- A primitive whose operation refuses its operands ends refused. -/
theorem endsRefused_primitive
    {operation : Primitive}
    (refuses : (operation.apply host values).Refuses store) :
    (apply host (.primitive operation) values).EndsRefused host limit ⟨store, context, depth⟩ :=
  ((IsRefused.of_perform refuses).bind _).ends

end Application

/-! Special forms. -/

namespace Special

/-- Forms that are served in turn are evaluated to their values, put behind those at hand. -/
theorem runsTo_evaluateAll
    (inTurn : Machine.ServesInTurn host limit base scope forms machine values last)
    (sofar : List Value) :
    (evaluateAll scope sofar forms).RunsTo host limit machine (sofar.reverse ++ values) last := by
  induction inTurn generalizing sofar with
  | nothing machine =>
      rw [List.append_nil]
      exact runsTo_done _ machine
  | @form _ value _ values _ _ _ _ served _ inductionHypothesis =>
      have rest := inductionHypothesis (value :: sofar)
      rw [List.reverse_cons, List.append_assoc] at rest
      exact .bind (runsTo_evaluate served) rest

/-- Special forms that go through a whole list among the values of their operands. -/
inductive Walks (list : Value) : SpecialForm → List Value → Prop
  | application {f : Value} {given : List Value} : Walks list .application (f :: given ++ [list])
  | mapping {f : Value} : Walks list .mapping [f, list]
  | iteration {f : Value} : Walks list .iteration [f, list]

/-- To map over a list that comes round is refused. -/
theorem isRefused_eachResult
    {f : Value}
    (inTurn : Machine.ServesInTurn host limit base scope forms machine [f, list] last)
    (comesRound : last.store.ComesRound list) :
    (eachResult scope forms).IsRefused host limit machine := by
  obtain _ | ⟨_, servedProcedure, _ | ⟨_, servedList, ⟨⟩⟩⟩ := inTurn
  refine .of_bind (runsTo_evaluate servedProcedure) (.of_bind (runsTo_evaluate servedList) ?_)
  exact (IsRefused.of_perform comesRound.refuses_listItems).bind _

/-- To apply a procedure to a list that comes round is refused. -/
theorem isRefused_application
    {f : Value}
    (inTurn : Machine.ServesInTurn host limit base scope forms machine (f :: values ++ [list]) last)
    (comesRound : last.store.ComesRound list) :
    (application scope forms).IsRefused host limit machine := by
  cases inTurn with
  | form _ servedProcedure inTurn =>
      obtain ⟨given, _, between, rfl, servedGiven, _ | ⟨_, servedList, ⟨⟩⟩⟩ := inTurn.split
      rw [application, List.getLast?_concat]
      refine .of_bind (runsTo_evaluate servedProcedure) ?_
      rw [List.dropLast_concat]
      refine .of_bind (runsTo_evaluateAll servedGiven []) (.of_bind (runsTo_evaluate servedList) ?_)
      exact (IsRefused.of_perform comesRound.refuses_listItems).bind _

/-- A special form refuses a circular list that it would go through. -/
theorem Walks.isRefused
    {keyword : SpecialForm}
    (walks : Walks list keyword operands)
    (inTurn : Machine.ServesInTurn host limit base scope forms machine operands last)
    (comesRound : last.store.ComesRound list) :
    (keyword.script host scope forms).IsRefused host limit machine := by
  cases walks with
  | application => exact isRefused_application inTurn comesRound
  | mapping => exact (isRefused_eachResult inTurn comesRound).bind _
  | iteration => exact (isRefused_eachResult inTurn comesRound).bind _

/-- A special form that walks a list is given as many operands as it takes. -/
theorem Walks.accepted
    {keyword : SpecialForm}
    (walks : Walks list keyword operands) :
    keyword.arity.refuses? operands.length = none := by
  cases walks with
  | @application f given =>
      rw [List.length_append]
      rfl
  | mapping => rfl
  | iteration => rfl

end Special

/-! Folding from the right. -/

namespace Folds

/-- Folding from the right reverses the list before it calls anything, which is refused. -/
theorem endsRefused_of_right
    {left right : Nat}
    (sees : begun.Sees ⟨0, []⟩ [("fold-left", .procedure left)])
    (provides : begun.Provides "fold-right" ["f", "init", "xs"] Folds.right right)
    (room : depth + 2 ≤ limit)
    (library : begun.KeepsLibrary store)
    (comesRound : store.ComesRound list)
    (f init : Value) :
    (Application.apply host (.procedure right) [f, init, list]).EndsRefused host limit
      ⟨store, context, depth⟩ := by
  obtain ⟨turned, call, forms, reversing, -, spells, writesReverse, inTurn, entering⟩ :=
    @exists_right_call host limit depth left right begun store sees provides room library context f
      init list
  obtain ⟨_, spellsReverse, areWritten⟩ := writesReverse.use
  have adds := adds_withTurned turned f init list store
  have keeps := library.code.trans adds.keepsCode
  have seesTurned :
      (withTurned turned f init list store).Sees ⟨store.frames.size, [0]⟩
        (leftSeen left f init list) :=
    sees_withTurned sees library
  have seesFrame := (library.sees sees).entered [("xs", list), ("init", init), ("f", f)]
    (store.namespaces ⟨0, []⟩)
  have operand :=
    @Machine.servesInTurn_of_means host limit (depth + 1) begun _ context _ _ _ _ _
      (.cons (Store.means_symbol (seesTurned.means rfl)) .nil) (by decide) areWritten keeps
      (by omega)
  have refusesList :
      ((Primitive.listing .reverse).apply host [list]).Refuses
        (withTurned turned f init list store) :=
    Primitive.Walks.reverse.refuses (comesRound.adds adds)
  have refuses :=
    @Machine.refuses_evaluate host limit depth _ context _ reversing (by omega)
      ((Application.goesOn_call spellsReverse keeps (by decide) (seesTurned.means rfl) rfl
        operand).endsRefused (Application.endsRefused_primitive refusesList))
  exact entering.endsRefused (Application.endsRefused_operand spells
    (library.code.trans (store.adds_withFrame _).keepsCode) (by decide) (seesFrame.means rfl) rfl
    inTurn keeps refuses)

end Folds

end SmallScheme
