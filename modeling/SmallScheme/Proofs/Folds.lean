import SmallScheme.Proofs.Folds.Derived
import SmallScheme.Proofs.Folds.Selection

namespace SmallScheme

/-!
# Folding lists with the library

Main result.  The procedures of the library that fold lists call what they are given for one item
after the other, in the order that is theirs, and end with what the calls have returned.  Three
levels are enough for lists of any length, besides those that the calls need.  Nothing is asked of
the scopes of programs, so it does not matter which names a program defines for itself.
-/

namespace Folds

/-- The library is there as it was loaded, and the list is the one that it has been. -/
def Keeps (begun before : Store) (list : Value) (store : Store) : Prop :=
  begun.KeepsLibrary store ∧ before.KeepsList list store

theorem lasts_keeps
    (begun before : Store)
    (list : Value) :
    Store.Lasts (Keeps begun before list) :=
  fun _ _ ⟨library, keepsList⟩ adds => ⟨library.adds adds, keepsList.adds adds⟩

end Folds

/-- The name means the procedure in the root of a new session. -/
def Session.RootBinds (settings : Settings) (name : String) (procedure : Value) : Prop :=
  ((start settings).store.frameAt 0).find? name = some procedure

/-- What is defined in any scope, the root included, takes nothing away from the library. -/
theorem Store.KeepsLibrary.defines
    {begun store : Store}
    (library : begun.KeepsLibrary store)
    (scope : Scope)
    (name : String)
    (value : Value) :
    begun.KeepsLibrary (Store.define scope name value store).2 := by
  have root := library.root.defines scope name value
  unfold Store.define at root ⊢
  split at root
  case h_1 => exact ⟨root, library.code, library.procedures⟩
  case h_2 => exact ⟨root, ⟨library.code.pairs, library.code.marked⟩, library.procedures⟩

theorem Value.takesForms_of_isProcedure
    {value : Value}
    (isProcedure : value.isProcedure) :
    Application.takesForms value = false := by
  cases value <;> first | rfl | cases isProcedure

/-- A procedure can be called for the items while the library and the list are kept. -/
theorem Folds.callable_of_isProcedure
    {host : Host}
    {limit depth : Nat}
    {f : Value}
    (isProcedure : f.isProcedure)
    (room : depth + 3 ≤ limit)
    (begun before : Store)
    (list : Value)
    (operands : Value → Value → List Value) :
    Callable host limit depth begun f operands
      (fun sum item => Machine.Serves host limit (.call f (operands sum item)))
      (Keeps begun before list) where
  applied := f.takesForms_of_isProcedure isProcedure
  room := room
  lasts := lasts_keeps begun before list
  library := And.left
  serves _ := id

/--
With the library, for every proper list and every procedure whose calls return and keep the list,
the library and what has been added: folding from the left calls it in the order of the items with
what it has returned before and the item; folding from the right calls it in the opposite order with
the item and what it has returned before; reducing folds the rest of the list from its first item.
They end with what has been returned last, or with what they begin with if nothing is called.
Selecting asks about one item after the other and ends with a list of those that a true value was
returned for.  The library is kept by all that is defined, by programs in scopes of theirs and by
hosts in the root.
-/
theorem library_folds_call_in_order
    {settings : Settings}
    (hasLibrary : settings.library = true)
    (enough : Library.levels ≤ settings.limit) :
    (∃ left right reduction selection : Value,
      Session.RootBinds settings "fold-left" left ∧
      Session.RootBinds settings "fold-right" right ∧
      Session.RootBinds settings "reduce" reduction ∧
      Session.RootBinds settings "filter" selection ∧
      ∀ (host : Host) (limit : Nat) (machine : Machine) (f list : Value) (items : List Value),
        f.isProcedure →
        (Session.start settings).store.KeepsLibrary machine.store →
        machine.store.Spells list items .nil →
        machine.depth + 3 ≤ limit →
        let keeps := Folds.Keeps (Session.start settings).store machine.store list
        let calling (operands : Value → Value → List Value) : Calling :=
          fun sum item => Machine.Serves host limit (.call f (operands sum item))
        let onward := calling fun sum item => [sum, item]
        let backward := calling fun sum item => [item, sum]
        let asking := calling fun _ item => [item]
        (∀ init,
          CallsReturn onward items init keeps machine →
          ∃ values last,
            CalledInTurn onward items init machine values last ∧
              Machine.Serves host limit (.finish (.apply left [f, init, list])) machine
                (values.getLastD init) last) ∧
        (∀ init,
          CallsReturn backward items.reverse init keeps machine →
          ∃ values last,
            CalledInTurn backward items.reverse init machine values last ∧
              Machine.Serves host limit (.finish (.apply right [f, init, list])) machine
                (values.getLastD init) last) ∧
        (∀ init,
          CallsReturn onward items.tail (items.headD init) keeps machine →
          ∃ values last,
            CalledInTurn onward items.tail (items.headD init) machine values last ∧
              Machine.Serves host limit (.finish (.apply reduction [f, init, list])) machine
                (values.getLastD (items.headD init)) last) ∧
        (CallsReturn asking items .unspecified keeps machine →
          ∃ values last result,
            CalledInTurn asking items .unspecified machine values last ∧
              last.store.Spells result (Folds.selected items values) .nil ∧
              Machine.Serves host limit (.finish (.apply selection [f, list])) machine result
                last)) ∧
    ∀ (store : Store) (scope : Scope) (name : String) (value : Value),
      (Session.start settings).store.KeepsLibrary store →
      (Session.start settings).store.KeepsLibrary (Store.define scope name value store).2 := by
  obtain ⟨left, right, reduction, selection, folds⟩ := Session.exists_hasFolds hasLibrary enough
  refine ⟨⟨.procedure left, .procedure right, .procedure reduction, .procedure selection,
    folds.left.1, folds.right.1, folds.reduction.1, folds.selection.1, ?_⟩,
    fun store scope name value library => library.defines scope name value⟩
  intro host limit ⟨store, context, depth⟩ f list items isProcedure library spells room
  have callable (operands : Value → Value → List Value) :=
    @Folds.callable_of_isProcedure host limit depth f isProcedure room
      (Session.start settings).store store list operands
  have isKept : Folds.Keeps (Session.start settings).store store list store :=
    ⟨library, .refl store list⟩
  have stays : StaysSpelled (Folds.Keeps (Session.start settings).store store list) list items :=
    .of_keepsList spells And.right
  refine ⟨fun init returns => ?_, fun init returns => ?_, fun init returns => ?_,
    fun returns => ?_⟩
  · obtain ⟨values, last, inTurn, concludes⟩ :=
      Folds.exists_calledInTurn_of_left folds.sees folds.left (callable _) stays isKept returns
    exact ⟨values, last, inTurn, (Machine.serves_finish_iff rfl).mpr concludes⟩
  · obtain ⟨values, last, inTurn, concludes⟩ :=
      Folds.exists_calledInTurn_of_right folds.sees folds.left folds.right (callable _) stays
        isKept returns
    exact ⟨values, last, inTurn, (Machine.serves_finish_iff rfl).mpr concludes⟩
  · obtain ⟨values, last, inTurn, concludes⟩ :=
      Folds.exists_calledInTurn_of_reduction folds.sees folds.left folds.reduction (callable _)
        stays isKept returns
    exact ⟨values, last, inTurn, (Machine.serves_finish_iff rfl).mpr concludes⟩
  · obtain ⟨values, last, result, inTurn, spellsResult, concludes⟩ :=
      Folds.exists_calledInTurn_of_selection folds.sees folds.selection (callable _) stays isKept
        returns
    exact ⟨values, last, result, inTurn, spellsResult,
      (Machine.serves_finish_iff rfl).mpr concludes⟩

/-- Two integers are subtracted in a call that changes nothing. -/
private theorem serves_difference
    {first second result : Int64}
    (isDifference : result.toInt = first.toInt - second.toInt)
    (store : Store) :
    Machine.Serves Host.absent 512
      (.call (.primitive (.arithmetic .subtract)) [.integer first, .integer second])
      ⟨store, default, 0⟩ (.integer result) ⟨store, default, 0⟩ :=
  Machine.serves_call_iff.mpr
    ⟨by decide, Application.concludes_primitive (Primitive.answers_difference _ isDifference _)⟩

/-- Two calls that change nothing return, and what they return is known. -/
private theorem two_calls
    {f : Value}
    (operands : Value → Value → List Value)
    {kept : Store → Prop}
    {sum first second middle final : Value}
    {store : Store}
    (lasts : Store.Lasts kept)
    (isKept : kept store)
    (servesFirst :
      ∀ store,
        Machine.Serves Host.absent 512 (.call f (operands sum first)) ⟨store, default, 0⟩ middle
          ⟨store, default, 0⟩)
    (servesSecond :
      ∀ store,
        Machine.Serves Host.absent 512 (.call f (operands middle second)) ⟨store, default, 0⟩ final
          ⟨store, default, 0⟩) :
    let calling : Calling :=
      fun sum item => Machine.Serves Host.absent 512 (.call f (operands sum item))
    CallsReturn calling [first, second] sum kept ⟨store, default, 0⟩ ∧
      ∀ {values last},
        CalledInTurn calling [first, second] sum ⟨store, default, 0⟩ values last →
        values = [middle, final] := by
  constructor
  · intro store adds
    have isKept := lasts isKept adds
    refine ⟨middle, _, servesFirst store, isKept, .of_adds (.refl _), fun later further => ?_⟩
    exact ⟨final, _, servesSecond later, ⟨lasts isKept further, .of_adds further⟩,
      .of_adds (.refl _), trivial⟩
  · intro values last inTurn
    cases inTurn with
    | item _ calledFirst inTurn =>
        obtain ⟨rfl, rfl⟩ := calledFirst.unique (servesFirst _)
        cases inTurn with
        | item _ calledSecond inTurn =>
            obtain ⟨rfl, rfl⟩ := calledSecond.unique (servesSecond _)
            cases inTurn
            rfl

/-- In a usual session, 1 and 2 are subtracted from 10 in turn, and 10 from 2 and that from 1. -/
theorem differences_are_folded_both_ways :
    ∃ (left right list : Value) (machine last lastBackward : Machine),
      Session.RootBinds Settings.usual "fold-left" left ∧
        Session.RootBinds Settings.usual "fold-right" right ∧
        machine.store.Spells list [.integer 1, .integer 2] .nil ∧
        Machine.Serves Host.absent 512
          (.finish (.apply left [.primitive (.arithmetic .subtract), .integer 10, list])) machine
          (.integer 7) last ∧
        Machine.Serves Host.absent 512
          (.finish (.apply right [.primitive (.arithmetic .subtract), .integer 10, list])) machine
          (.integer 9) lastBackward := by
  obtain ⟨⟨left, right, _, _, isLeft, isRight, _, _, folds⟩, _⟩ :=
    @library_folds_call_in_order Settings.usual rfl (by decide)
  obtain ⟨begun, isBegun⟩ : ∃ begun, begun = (Session.start Settings.usual).store := ⟨_, rfl⟩
  rw [← isBegun] at folds
  obtain ⟨list, store, made⟩ :
      ∃ list store, begun.newListFrom [.integer 2, .integer 1] .nil = (list, store) :=
    ⟨_, _, rfl⟩
  have library : begun.KeepsLibrary store := by
    have adds := Store.adds_newListFrom [.integer 2, .integer 1] .nil begun
    rw [made] at adds
    exact (Store.KeepsLibrary.refl begun).adds adds
  have spells : store.Spells list [.integer 1, .integer 2] .nil := by
    have spells := (Store.newListFrom_spells [.integer 2, .integer 1] .nil begun).2 .nothing
    rw [made] at spells
    exact spells
  have lasts := Folds.lasts_keeps begun store list
  have isKept : Folds.Keeps begun store list store := ⟨library, .refl store list⟩
  obtain ⟨onward, backward, _, _⟩ :=
    folds Host.absent 512 ⟨store, default, 0⟩ (.primitive (.arithmetic .subtract)) list
      [.integer 1, .integer 2] rfl library spells (show 0 + 3 ≤ 512 by decide)
  obtain ⟨returns, areValues⟩ :=
    two_calls (fun sum item => [sum, item]) lasts isKept (@serves_difference 10 1 9 (by decide))
      (@serves_difference 9 2 7 (by decide))
  obtain ⟨returnsBackward, areBackward⟩ :=
    two_calls (fun sum item => [item, sum]) lasts isKept
      (@serves_difference 2 10 (-8) (by decide)) (@serves_difference 1 (-8) 9 (by decide))
  obtain ⟨values, last, inTurn, serves⟩ := onward _ returns
  obtain ⟨valuesBackward, lastBackward, inTurnBackward, servesBackward⟩ :=
    backward _ returnsBackward
  cases areValues inTurn
  cases areBackward inTurnBackward
  exact ⟨left, right, list, _, last, lastBackward, isLeft, isRight, spells, serves, servesBackward⟩

end SmallScheme
