import SmallScheme.Proofs.EffectfulForms
import SmallScheme.Proofs.Membership
import SmallScheme.Proofs.Store.Additions

namespace SmallScheme

/-!
# The folds of the library

How the procedures of the library that fold lists are written, and that every new session with the
library has them.  A later store keeps the library if it has not lost anything of the root, of the
code and of the procedures.  Whatever is defined keeps it, by programs in scopes of theirs as well
as by hosts in the root.
-/

namespace Folds

open Search

/-- `(let loop ((name form) ...) body)` -/
def loop
    (bindings : List (String × Datum))
    (body : Datum) : Datum :=
  .ofList [
    .symbol "let",
    .symbol "loop",
    .ofList (bindings.map fun (name, form) => .ofList [.symbol name, form]),
    body]

/-- `(f acc (car xs))` -/
def leftCall : Datum :=
  .ofList [.symbol "f", .symbol "acc", firstItem]

/-- `(if (null? xs) acc (loop (f acc (car xs)) (cdr xs)))` -/
def leftRound : Datum :=
  .ofList [
    .symbol "if",
    isOver,
    .symbol "acc",
    .ofList [.symbol "loop", leftCall, otherItems]]

def left : Datum :=
  loop [("acc", .symbol "init"), ("xs", .symbol "xs")] leftRound

/-- `(f item acc)` -/
def turnedCall : Datum :=
  .ofList [.symbol "f", .symbol "item", .symbol "acc"]

/-- `(fold-left (lambda (acc item) (f item acc)) init (reverse xs))` -/
def right : Datum :=
  .ofList [
    .symbol "fold-left",
    .lambda ["acc", "item"] turnedCall,
    .symbol "init",
    .ofList [.symbol "reverse", .symbol "xs"]]

/-- `(if (null? xs) init (fold-left f (car xs) (cdr xs)))` -/
def reduction : Datum :=
  .ofList [
    .symbol "if",
    isOver,
    .symbol "init",
    .ofList [.symbol "fold-left", .symbol "f", firstItem, otherItems]]

/-- `(keep? (car xs))` -/
def isKept : Datum :=
  .ofList [.symbol "keep?", firstItem]

/-- `(loop (cdr xs) (cons (car xs) acc))` -/
def keepItem : Datum :=
  .ofList [.symbol "loop", otherItems, .ofList [.symbol "cons", firstItem, .symbol "acc"]]

/-- `(loop (cdr xs) acc)` -/
def passItem : Datum :=
  .ofList [.symbol "loop", otherItems, .symbol "acc"]

/-- `(cond ((null? xs) (reverse acc)) (kept keep) (else pass))`, with what the names stand for -/
def selectionRound : Datum :=
  .ofList [
    .symbol "cond",
    .ofList [isOver, .ofList [.symbol "reverse", .symbol "acc"]],
    .ofList [isKept, keepItem],
    .ofList [.symbol "else", passItem]]

def selection : Datum :=
  loop [("xs", .symbol "xs"), ("acc", .marked .quote .nil)] selectionRound

def definitions : List Datum :=
  [.definition "fold-left" ["f", "init", "xs"] left,
    .definition "fold-right" ["f", "init", "xs"] right,
    .definition "reduce" ["f", "init", "xs"] reduction,
    .definition "filter" ["keep?", "xs"] selection]

end Folds

namespace Store

variable
  {before after store : Store}

/-- The procedures that fold lists are at these addresses, and the first one is seen by others. -/
structure HasFolds (store : Store) (left right reduction selection : Nat) : Prop where
  sees : store.Sees ⟨0, []⟩ [("fold-left", .procedure left)]
  left : store.Provides "fold-left" ["f", "init", "xs"] Folds.left left
  right : store.Provides "fold-right" ["f", "init", "xs"] Folds.right right
  reduction : store.Provides "reduce" ["f", "init", "xs"] Folds.reduction reduction
  selection : store.Provides "filter" ["keep?", "xs"] Folds.selection selection

/-- What has been bound in the root stays bound when objects are added. -/
theorem KeepsRoot.adds
    {later : Store}
    (keepsRoot : before.KeepsRoot after)
    (adds : after.Adds later) :
    before.KeepsRoot later := by
  refine ⟨fun found => ?_⟩
  obtain ⟨root, isRoot, kept⟩ := keepsRoot.binds found
  exact ⟨root, adds.frames isRoot, kept⟩

/-- A definition is refused where the name is bound, so that it changes no binding of the root. -/
theorem KeepsRoot.defines
    (keepsRoot : before.KeepsRoot after)
    (scope : Scope)
    (name : String)
    (value : Value) :
    before.KeepsRoot (define scope name value after).2 := by
  refine ⟨fun found => ?_⟩
  obtain ⟨root, isRoot, kept⟩ := keepsRoot.binds found
  unfold define
  split
  case h_1 => exact ⟨root, isRoot, kept⟩
  case h_2 free =>
    by_cases inRoot : scope.frame = 0
    · refine ⟨root.bind name value, ?_, fun {other bound} named => ?_⟩
      · change (after.frames.modify _ _)[0]? = _
        rw [Array.getElem?_modify, if_pos inRoot, isRoot]
        rfl
      · have different : (other == name) = false := by
          rw [beq_eq_false_iff_ne]
          rintro rfl
          rw [inRoot, frameAt, isRoot, Option.getD_some, kept named] at free
          cases free
        rw [Frame.find?, Frame.bind, List.lookup_cons, different]
        exact kept named
    · refine ⟨root, ?_, kept⟩
      change (after.frames.modify _ _)[0]? = _
      rw [Array.getElem?_modify, if_neg inRoot]
      exact isRoot

/-- The store has lost nothing of the library that the first one has. -/
structure KeepsLibrary (before after : Store) : Prop where
  root : before.KeepsRoot after
  code : before.KeepsCode after
  procedures :
    ∀ {address : Nat} {procedure : Procedure},
      before.procedures[address]? = some procedure → after.procedures[address]? = some procedure

namespace KeepsLibrary

theorem refl
    (store : Store) :
    store.KeepsLibrary store :=
  ⟨.of_eq rfl, ⟨id, id⟩, id⟩

theorem adds
    {later : Store}
    (keeps : before.KeepsLibrary after)
    (adds : after.Adds later) :
    before.KeepsLibrary later :=
  ⟨keeps.root.adds adds, keeps.code.trans adds.keepsCode, adds.procedures ∘ keeps.procedures⟩

/-- From the root one sees the same as ever. -/
theorem sees
    {bindings : List (String × Value)}
    (keeps : before.KeepsLibrary after)
    (sees : before.Sees ⟨0, []⟩ bindings) :
    after.Sees ⟨0, []⟩ bindings :=
  sees.of_root keeps.root

end KeepsLibrary

end Store

namespace Session

/-- In a new session with the library there are the procedures that fold lists. -/
theorem exists_hasFolds
    {settings : Settings}
    (hasLibrary : settings.library = true)
    (room : Library.levels ≤ settings.limit) :
    ∃ left right reduction selection,
      (start settings).store.HasFolds left right reduction selection := by
  have hasForms : ∀ form ∈ Folds.definitions, Library.HasForm form :=
    Library.hasForm_of_readsAs (by decide +kernel)
  simp only [Folds.definitions, List.forall_mem_cons] at hasForms
  obtain ⟨hasLeft, hasRight, hasReduction, hasSelection, -⟩ := hasForms
  obtain ⟨left, isLeft⟩ := exists_provides hasLibrary room hasLeft
  obtain ⟨right, isRight⟩ := exists_provides hasLibrary room hasRight
  obtain ⟨reduction, isReduction⟩ := exists_provides hasLibrary room hasReduction
  obtain ⟨selection, isSelection⟩ := exists_provides hasLibrary room hasSelection
  exact ⟨left, right, reduction, selection, (offers_start settings).sees_of_bound isLeft.1, isLeft,
    isRight, isReduction, isSelection⟩

end Session

/-!
## The loops of the folds

A procedure that is a loop makes three things when it is entered: a frame for its operands, a frame
that binds the loop, and the procedure that the loop is.  As long as these and the library are kept,
the loop can go round, and all that it looks up is seen from its scope.
-/

namespace Folds

open Script Search

variable
  {host : Host}
  {limit depth left : Nat}
  {begun store : Store}
  {context : Context}
  {scope : Scope}
  {form list value : Value}
  {values initial : List Value}
  {parameters : List String}
  {bindings : List (String × Datum)}
  {seen : List (String × Value)}
  {last : Machine}

/-- A choice on whether the list is over goes on with one of its branches. -/
theorem exists_goesOn_if_over
    {first second : Datum}
    (writes : begun.Writes (.ofList [.symbol "if", isOver, first, second]) form)
    (keeps : begun.KeepsCode store)
    (sees : store.Sees scope seen)
    (keyword :
      (seen ++ Session.initialBindings).lookup "if" = some (.special .conditional))
    (test :
      (seen ++ Session.initialBindings).lookup "null?" = some (.primitive (.kindTest .nil)))
    (isList : (seen ++ Session.initialBindings).lookup "xs" = some list)
    (room : depth + 2 ≤ limit) :
    ∃ chosen,
      begun.Writes (if list.isNil then first else second) chosen ∧
        (Script.tail scope form).GoesOn host limit ⟨store, context, depth⟩ 1
          (Script.tail scope chosen) ⟨store, context, depth⟩ := by
  obtain ⟨_, spells, _ | ⟨writesTest, _ | ⟨writesFirst, _ | ⟨writesSecond, ⟨⟩⟩⟩⟩⟩ := writes.use
  have tested :
      Machine.Serves host limit (.evaluate scope _) ⟨store, context, depth⟩
        (.boolean list.isNil) ⟨store, context, depth⟩ :=
    Machine.serves_of_means (means_isOver sees isList test) rfl writesTest keeps room
  refine ⟨_, ?_, .trans_step (goesOn_tail_list spells _) (.trans_at_once
    (Application.goesOn_use spells keeps (by decide) (sees.means keyword) rfl)
    (Special.goesOn_conditional tested))⟩
  cases ended : list.isNil with
  | true => exact writesFirst
  | false => exact writesSecond

/-- What is written as bindings are entries for the names and the forms. -/
theorem exists_areEntries
    {block : Value}
    (writes :
      begun.Writes (.ofList (bindings.map fun (name, form) => .ofList [.symbol name, form]))
        block) :
    ∃ entries written,
      begun.Spells block entries .nil ∧
        Special.AreEntries begun entries written ∧
          written.map Prod.fst = bindings.map Prod.fst ∧
            List.Forall₂ begun.Writes (bindings.map Prod.snd) (written.map Prod.snd) := by
  obtain ⟨entries, spells, each⟩ := writes.spells
  suffices exists_written :
      ∃ written,
        Special.AreEntries begun entries written ∧
          written.map Prod.fst = bindings.map Prod.fst ∧
            List.Forall₂ begun.Writes (bindings.map Prod.snd) (written.map Prod.snd) by
    obtain ⟨written, areEntries, sameNames, areWritten⟩ := exists_written
    exact ⟨entries, written, spells, areEntries, sameNames, areWritten⟩
  clear spells writes
  induction bindings generalizing entries with
  | nil =>
      cases each
      exact ⟨[], .nil, rfl, .nil⟩
  | cons binding bindings inductionHypothesis =>
      obtain _ | ⟨writesEntry, each⟩ := each
      obtain ⟨_, spells, _ | ⟨writesForm, ⟨⟩⟩⟩ := writesEntry.use
      obtain ⟨written, areEntries, sameNames, areWritten⟩ := inductionHypothesis _ each
      exact ⟨(binding.1, _) :: written, .cons spells areEntries,
        congrArg (binding.1 :: ·) sameNames, .cons writesForm areWritten⟩

/-- The loop can go round: its scope, its procedure and the code are what they have to be. -/
structure Loops
    (begun : Store)
    (round : Value)
    (names : List String)
    (seen : List (String × Value))
    (address : Nat)
    (inner : Scope)
    (store : Store) : Prop where
  sees : store.Sees inner (("loop", .procedure address) :: seen)
  procedure :
    store.procedures[address]? = some ⟨.fixed names, [round], inner, some "loop"⟩
  code : begun.KeepsCode store

/-- What is seen from the scope of a procedure of the library that is entered with operands. -/
def seenInside
    (left : Nat)
    (parameters : List String)
    (values : List Value) : List (String × Value) :=
  (parameters.zip values).reverse ++ [("fold-left", .procedure left)]

/-- The frame of a procedure of the library that is entered with operands. -/
def entered
    (parameters : List String)
    (values : List Value)
    (store : Store) : Store :=
  store.withFrame ⟨(parameters.zip values).reverse, store.namespaces ⟨0, []⟩⟩

/--
A procedure that is a loop makes what the loop needs to go round, and goes on with its first round.
-/
theorem exists_loops
    (values initial : List Value)
    {body : Datum}
    {address : Nat}
    {called : Option String}
    (sees : begun.Sees ⟨0, []⟩ [("fold-left", .procedure left)])
    (library : begun.KeepsLibrary store)
    (found : store.procedures[address]? = some ⟨.fixed parameters, [form], ⟨0, []⟩, called⟩)
    (writes : begun.Writes (loop bindings body) form)
    (fits : values.length = parameters.length)
    (distinct : parameters.Nodup)
    (distinctBindings : (bindings.map Prod.fst).Nodup)
    (keyword :
      (seenInside left parameters values ++ Session.initialBindings).lookup "let" =
        some (.special .letBlock))
    (initially :
      ∀ {forms : List Value},
        List.Forall₂ begun.Writes (bindings.map Prod.snd) forms →
        Machine.ServesInTurn host limit begun ⟨store.frames.size, [0]⟩ forms
          ⟨entered parameters values store, context, depth⟩ initial
          ⟨entered parameters values store, context, depth⟩) :
    ∃ round loop inner ready,
      begun.Writes body round ∧
        store.Adds ready ∧
          (∀ later,
            begun.KeepsLibrary later →
            store.KeepsAdded ready later →
            Loops begun round (bindings.map Prod.fst) (seenInside left parameters values) loop inner
              later) ∧
          (Application.apply host (.procedure address) values).GoesOn host limit
            ⟨store, context, depth⟩ 2 (Application.apply host (.procedure loop) initial)
            ⟨ready, context, depth⟩ := by
  obtain ⟨_, spells, _ | ⟨writesName, _ | ⟨writesBlock, _ | @⟨_, round, _, _, writesRound, ⟨⟩⟩⟩⟩⟩ :=
    writes.use
  cases writesName.encodes rfl
  obtain ⟨entries, written, spellsBlock, areEntries, sameNames, areWritten⟩ :=
    exists_areEntries writesBlock
  let outer : Scope := ⟨store.frames.size, [0]⟩
  let names := bindings.map Prod.fst
  let ready := (entered parameters values store).withLoop outer "loop" names [round]
  have addsFrame : store.Adds (entered parameters values store) := store.adds_withFrame _
  have adds : store.Adds ready := addsFrame.trans (Store.adds_withLoop _ _ _ _ _)
  refine ⟨round, store.procedures.size, ⟨store.frames.size + 1, outer.frames⟩, ready, writesRound,
    adds, fun later keepsLibrary keeps => ?_, ?_⟩
  · have frame :
        later.frames[store.frames.size]? =
          some ⟨(parameters.zip values).reverse, store.namespaces ⟨0, []⟩⟩ :=
      keeps.frames (Nat.le_refl _) (Store.getElem?_push_of_some Array.getElem?_push_size)
    have innerFrame :
        later.frames[store.frames.size + 1]? =
          some ⟨[("loop", .procedure store.procedures.size)],
            (entered parameters values store).namespaces outer⟩ := by
      refine keeps.frames (Nat.le_succ _) ?_
      have size : (entered parameters values store).frames.size = store.frames.size + 1 :=
        Array.size_push ..
      rw [← size]
      exact Array.getElem?_push_size
    refine ⟨((keepsLibrary.sees sees).inside frame).inside innerFrame, ?_, keepsLibrary.code⟩
    refine keeps.procedures (Nat.le_refl _) ?_
    have size : (entered parameters values store).frames.size = store.frames.size + 1 :=
      Array.size_push ..
    rw [← size]
    exact Array.getElem?_push_size
  · have seesFrame := (library.sees sees).entered (parameters.zip values).reverse
      (store.namespaces ⟨0, []⟩)
    have keeps : begun.KeepsCode (entered parameters values store) :=
      library.code.trans addsFrame.keepsCode
    refine .trans_at_once (Application.goesOn_apply found distinct fits)
      (.trans_step (goesOn_tail_list spells _) (.trans_at_once
        (Application.goesOn_use spells keeps (by decide) (seesFrame.means keyword) rfl) ?_))
    have sameLoop :
        (entered parameters values store).withLoop outer "loop" (written.map Prod.fst) [round] =
          ready := by
      rw [sameNames]
    rw [← sameLoop]
    exact Special.goesOn_namedBlock spellsBlock areEntries keeps (sameNames ▸ distinctBindings)
      (initially areWritten)

end Folds

end SmallScheme
