import SmallScheme.Proofs.Folds.Loop
import SmallScheme.Proofs.Store.Race

namespace SmallScheme

/-!
# Searches along circular lists

The searches of the library go on with the rest of a list until it is over or they have found what
they look for.  They do not ask whether the list comes round: where it does, the rest comes round as
well, and each round just adds a frame.  So they never end if there is nothing to be found.
-/

variable
  {host : Host}
  {limit depth address first : Nat}
  {begun store : Store}
  {context : Context}
  {scope : Scope}
  {value list item tail ending : Value}
  {items : List Value}
  {machine : Machine}

/-- The searches of the library for a value. -/
inductive Seeking
  | identical
  | equal

namespace Seeking

def name : Seeking → String
  | identical => "memq"
  | equal => "member"

/-- The operation that each item is compared by. -/
def operation : Seeking → Equivalence
  | identical => .same
  | equal => .alike

/-- The item is found. -/
def holds (store : Store) : Seeking → Value → Value → Bool
  | identical => store.identical
  | equal => store.equal

/-- `(cond ((null? xs) #f) ((test x (car xs)) xs) (else (name x (cdr xs))))` -/
def body (seeking : Seeking) : Datum :=
  .ofList [
    .symbol "cond",
    .ofList [Search.isOver, .boolean false],
    .ofList [
      .ofList [
        .symbol (Primitive.equivalence seeking.operation).name, .symbol "x", Search.firstItem],
      .symbol "xs"],
    .ofList [
      .symbol "else",
      .ofList [.symbol seeking.name, .symbol "x", Search.otherItems]]]

theorem apply_operation
    (host : Host)
    (seeking : Seeking)
    (store : Store)
    (first second : Value) :
    Primitive.apply host (.equivalence seeking.operation) [first, second] store =
      (.ok (.boolean (seeking.holds store first second)), store) := by
  cases seeking <;> rfl

end Seeking

/-- `(if (pair? (cdr xs)) (last-pair (cdr xs)) xs)` -/
def Search.lastPair : Datum :=
  .ofList [
    .symbol "if",
    .ofList [.symbol "pair?", otherItems],
    .ofList [.symbol "last-pair", otherItems],
    .symbol "xs"]

namespace Store

/-- What comes round is a pair. -/
theorem ComesRound.exists_pair
    (comesRound : store.ComesRound value) :
    ∃ address item tail, value = .pair address ∧ store.pairs[address]? = some ⟨item, tail⟩ := by
  cases found : store.pair? value with
  | none => exact (not_comesRound_of_pair?_eq_none found comesRound).elim
  | some pair =>
      cases value with
      | pair address => exact ⟨address, pair.head, pair.tail, rfl, found⟩
      | _ => cases found

/-- Equality does not look at frames. -/
theorem equal_withFrame
    (store : Store)
    (frame : Frame) :
    (store.withFrame frame).equal = store.equal := by
  have isCircular (value : Value) :
      (store.withFrame frame).isCircular value = store.isCircular value := by
    rw [Bool.eq_iff_iff]
    simp only [Store.isCircular, Option.isNone_iff_eq_none, chainEnd?_eq_none_iff]
    exact Iff.rfl
  have within (depth : Nat) :
      (store.withFrame frame).equalWithin depth = store.equalWithin depth := by
    induction depth with
    | zero => rfl
    | succ depth inductionHypothesis =>
        funext entering first second
        unfold equalWithin
        rw [inductionHypothesis, isCircular, isCircular]
        rfl
  funext first second
  exact congrFun (congrFun (congrFun (within (Fuel.ample + store.extent + 1)) true) first) second

/-- No item of the list is what is looked for. -/
def Lacks
    (store : Store)
    (seeking : Seeking)
    (value list : Value) : Prop :=
  ∀ ⦃items : List Value⦄ ⦃ending : Value⦄,
    store.Spells list items ending →
    ∀ item ∈ items, seeking.holds store value item = false

variable
  {seeking : Seeking}

theorem Lacks.of_pair
    (lacks : store.Lacks seeking value (.pair first))
    (found : store.pairs[first]? = some ⟨item, tail⟩) :
    seeking.holds store value item = false ∧ store.Lacks seeking value tail := by
  constructor
  · exact lacks (.pair found .nothing) item List.mem_cons_self
  · exact fun _ _ spells other member =>
      lacks (.pair found spells) other (List.mem_cons_of_mem _ member)

theorem holds_withFrame
    (seeking : Seeking)
    (store : Store)
    (frame : Frame) :
    seeking.holds (store.withFrame frame) = seeking.holds store := by
  cases seeking with
  | identical => rfl
  | equal => exact equal_withFrame store frame

theorem Lacks.withFrame
    (lacks : store.Lacks seeking value list)
    (frame : Frame) :
    (store.withFrame frame).Lacks seeking value list := by
  intro items ending spells
  rw [holds_withFrame]
  exact lacks (spells.of_pairs id)

end Store

namespace Session

variable
  {settings : Settings}

theorem exists_provides_lastPair
    (hasLibrary : settings.library = true)
    (room : Library.levels ≤ settings.limit) :
    ∃ address, (start settings).store.Provides "last-pair" ["xs"] Search.lastPair address :=
  exists_provides hasLibrary room
    (Library.hasForm_of_readsAs (by decide +kernel) _ (List.mem_singleton_self _))

theorem hasForm_seeking
    (seeking : Seeking) :
    Library.HasForm (.definition seeking.name ["x", "xs"] seeking.body) := by
  cases seeking with
  | identical => exact hasForm_search
  | equal => exact Library.hasForm_of_readsAs (by decide +kernel) _ (List.mem_singleton_self _)

theorem exists_provides_seeking
    (hasLibrary : settings.library = true)
    (room : Library.levels ≤ settings.limit)
    (seeking : Seeking) :
    ∃ address, (start settings).store.Provides seeking.name ["x", "xs"] seeking.body address :=
  exists_provides hasLibrary room (hasForm_seeking seeking)

end Session

namespace Search

open Script Folds

/-- As long as the list goes on, its last pair is looked for in the rest. -/
theorem lastPair_goes_on
    {second : Nat}
    (sees : begun.Sees ⟨0, []⟩ [("last-pair", .procedure address)])
    (provides : begun.Provides "last-pair" ["xs"] lastPair address)
    (library : begun.KeepsLibrary store)
    (room : depth + 3 ≤ limit)
    (found : store.pairs[first]? = some ⟨item, .pair second⟩) :
    (Application.apply host (.procedure address) [.pair first]).GoesOn host limit
      ⟨store, context, depth⟩ 2 (Application.apply host (.procedure address) [.pair second])
      ⟨entered ["xs"] [.pair first] store, context, depth⟩ := by
  obtain ⟨-, form, called, isProcedure, writes⟩ := provides
  have entered := (library.sees sees).entered [("xs", .pair first)] (store.namespaces ⟨0, []⟩)
  have keeps : begun.KeepsCode (Folds.entered ["xs"] [.pair first] store) :=
    library.code.trans (store.adds_withFrame _).keepsCode
  obtain ⟨_, spells, _ | ⟨writesTest, _ | ⟨writesNext, _ | ⟨_, ⟨⟩⟩⟩⟩⟩ := writes.use
  obtain ⟨_, spellsNext, areWritten⟩ := Store.Writes.use writesNext
  have tested :
      Machine.Serves host limit (.evaluate ⟨store.frames.size, [0]⟩ _)
        ⟨Folds.entered ["xs"] [.pair first] store, context, depth⟩ (.boolean true)
        ⟨Folds.entered ["xs"] [.pair first] store, context, depth⟩ :=
    Machine.serves_of_means
      (Store.means_use_of_apply (by decide) (entered.means rfl)
        (.cons (means_otherItems entered rfl rfl found) .nil) rfl)
      rfl writesTest keeps room
  refine .trans_at_once (Application.goesOn_apply (library.procedures isProcedure) (by decide) rfl)
    (.trans_step (goesOn_tail_list spells _) (.trans_at_once
      (Application.goesOn_use spells keeps (by decide) (entered.means rfl) rfl)
      (.trans_at_once (Special.goesOn_conditional tested) (.trans_step
        (goesOn_tail_list spellsNext _) ?_))))
  refine Application.goesOn_call spellsNext keeps (by decide) (entered.means rfl) rfl ?_
  exact Machine.servesInTurn_of_means (.cons (means_otherItems entered rfl rfl found) .nil)
    (by decide) areWritten keeps (by omega)

/-- Looking for the last pair of a circular list never ends. -/
theorem isEndless_of_lastPair
    (sees : begun.Sees ⟨0, []⟩ [("last-pair", .procedure address)])
    (provides : begun.Provides "last-pair" ["xs"] lastPair address)
    (library : begun.KeepsLibrary store)
    (room : depth + 3 ≤ limit)
    (comesRound : store.ComesRound list) :
    (Application.apply host (.procedure address) [list]).IsEndless host limit
      ⟨store, context, depth⟩ := by
  let looksOn (script : Script Step) (machine : Machine) : Prop :=
    ∃ list store,
      script = Application.apply host (.procedure address) [list] ∧
        machine = ⟨store, context, depth⟩ ∧
          begun.KeepsLibrary store ∧ store.ComesRound list
  refine @isEndless_of_progress host limit _ _ looksOn ?_
    ⟨list, store, rfl, rfl, library, comesRound⟩
  rintro _ _ ⟨list, store, rfl, rfl, library, comesRound⟩
  obtain ⟨first, item, tail, rfl, found⟩ := comesRound.exists_pair
  have comesRoundAfter := comesRound.tail ⟨_, found, rfl⟩
  obtain ⟨second, _, _, rfl, _⟩ := comesRoundAfter.exists_pair
  exact ⟨1, _, _, lastPair_goes_on sees provides library room found, _, _, rfl, rfl,
    library.adds (store.adds_withFrame _), comesRoundAfter⟩

/-- What a search is entered with. -/
def seekingFrame (value list : Value) : List (String × Value) :=
  [("xs", list), ("x", value)]

variable
  {seeking : Seeking}

/-- The test of a search tells whether the first item is found. -/
theorem means_isSought
    (sees :
      store.Sees scope
        (seekingFrame value (.pair first) ++ [(seeking.name, .procedure address)]))
    (found : store.pairs[first]? = some ⟨item, tail⟩) :
    store.Means host limit 3 scope
      (.ofList [
        .symbol (Primitive.equivalence seeking.operation).name, .symbol "x", firstItem])
      (.boolean (seeking.holds store value item)) := by
  have ordinary : memberName? (Primitive.equivalence seeking.operation).name = none := by
    cases seeking <;> decide
  have comparing :
      store.lookup? scope (Primitive.equivalence seeking.operation).name =
        some (.primitive (.equivalence seeking.operation)) :=
    sees.means (by cases seeking <;> rfl)
  exact Store.means_use_of_apply ordinary comparing
    (.cons ((Store.means_symbol (sees.means rfl)).mono (by decide))
      (.cons (means_firstItem sees rfl (by cases seeking <;> rfl) found) .nil))
    (seeking.apply_operation host store value item)

/-- An item that is not looked for is passed over. -/
theorem seeking_goes_on
    (sees : begun.Sees ⟨0, []⟩ [(seeking.name, .procedure address)])
    (provides : begun.Provides seeking.name ["x", "xs"] seeking.body address)
    (library : begun.KeepsLibrary store)
    (room : depth + 3 ≤ limit)
    (found : store.pairs[first]? = some ⟨item, tail⟩)
    (other : seeking.holds store value item = false) :
    (Application.apply host (.procedure address) [value, .pair first]).GoesOn host limit
      ⟨store, context, depth⟩ 2 (Application.apply host (.procedure address) [value, tail])
      ⟨entered ["x", "xs"] [value, .pair first] store, context, depth⟩ := by
  obtain ⟨-, form, called, isProcedure, writes⟩ := provides
  let scope : Scope := ⟨store.frames.size, [0]⟩
  let ready := entered ["x", "xs"] [value, .pair first] store
  have entered :
      ready.Sees scope
        (seekingFrame value (.pair first) ++ [(seeking.name, .procedure address)]) :=
    (library.sees sees).entered (seekingFrame value (.pair first)) (store.namespaces ⟨0, []⟩)
  have keeps : begun.KeepsCode ready := library.code.trans (store.adds_withFrame _).keepsCode
  have choosing : ready.lookup? scope "cond" = some (.special .clauses) :=
    entered.means (by cases seeking <;> rfl)
  have seekingOn : ready.lookup? scope seeking.name = some (.procedure address) :=
    entered.means (by cases seeking <;> rfl)
  have ordinary : memberName? seeking.name = none := by cases seeking <;> decide
  obtain ⟨_, spells, _ | ⟨writesOver, _ | ⟨writesFound, _ | ⟨writesElse, ⟨⟩⟩⟩⟩⟩ := writes.use
  obtain ⟨_, spellsOver, _ | ⟨writesTest, _ | ⟨_, ⟨⟩⟩⟩⟩ := writesOver.spells
  obtain ⟨_, spellsFound, _ | ⟨writesFinding, _ | ⟨_, ⟨⟩⟩⟩⟩ := writesFound.spells
  obtain ⟨_, spellsElse, _ | ⟨writesNext, ⟨⟩⟩⟩ := writesElse.use
  obtain ⟨_, spellsTest, _⟩ := writesTest.use
  obtain ⟨_, spellsFinding, _⟩ := writesFinding.use
  obtain ⟨_, spellsNext, areWritten⟩ := writesNext.use
  have tested :
      Machine.Serves host limit (.evaluate scope _) ⟨ready, context, depth⟩ (.boolean false)
        ⟨ready, context, depth⟩ :=
    Machine.serves_of_means (means_isOver entered rfl (by cases seeking <;> rfl)) rfl writesTest
      keeps (by omega)
  have notFound : ready.Means host limit 3 scope _ (.boolean (seeking.holds ready value item)) :=
    means_isSought entered found
  rw [show seeking.holds ready = seeking.holds store from Store.holds_withFrame .., other]
    at notFound
  have compared :
      Machine.Serves host limit (.evaluate scope _) ⟨ready, context, depth⟩ (.boolean false)
        ⟨ready, context, depth⟩ :=
    Machine.serves_of_means notFound (by cases seeking <;> rfl) writesFinding keeps room
  refine .trans_at_once (Application.goesOn_apply (library.procedures isProcedure) (by decide) rfl)
    (.trans_step (goesOn_tail_list spells _) (.trans_at_once
      (Application.goesOn_use spells keeps (by decide) choosing rfl) ?_))
  refine .trans_at_once (Special.goesOn_clauses_of_false spellsOver keeps
    (spellsTest.isNamed_eq_false _) tested rfl) (.trans_at_once
      (Special.goesOn_clauses_of_false spellsFound keeps (spellsFinding.isNamed_eq_false _) compared
        rfl) (.trans_at_once (Special.goesOn_clauses_of_else spellsElse keeps) (.trans_step
          (goesOn_tail_list spellsNext _) ?_)))
  refine Application.goesOn_call spellsNext keeps ordinary seekingOn rfl ?_
  exact Machine.servesInTurn_of_means
    (.cons ((Store.means_symbol (entered.means rfl)).mono (by decide))
      (.cons (means_otherItems entered rfl (by cases seeking <;> rfl) found) .nil))
    (by decide) areWritten keeps (by omega)

/-- A search for a value that a circular list lacks never ends. -/
theorem isEndless_of_seeking
    (sees : begun.Sees ⟨0, []⟩ [(seeking.name, .procedure address)])
    (provides : begun.Provides seeking.name ["x", "xs"] seeking.body address)
    (library : begun.KeepsLibrary store)
    (room : depth + 3 ≤ limit)
    (comesRound : store.ComesRound list)
    (lacks : store.Lacks seeking value list) :
    (Application.apply host (.procedure address) [value, list]).IsEndless host limit
      ⟨store, context, depth⟩ := by
  let looksOn (script : Script Step) (machine : Machine) : Prop :=
    ∃ list store,
      script = Application.apply host (.procedure address) [value, list] ∧
        machine = ⟨store, context, depth⟩ ∧
          begun.KeepsLibrary store ∧ store.ComesRound list ∧ store.Lacks seeking value list
  refine @isEndless_of_progress host limit _ _ looksOn ?_
    ⟨list, store, rfl, rfl, library, comesRound, lacks⟩
  rintro _ _ ⟨list, store, rfl, rfl, library, comesRound, lacks⟩
  obtain ⟨first, item, tail, rfl, found⟩ := comesRound.exists_pair
  obtain ⟨other, lacks⟩ := lacks.of_pair found
  exact ⟨1, _, _, seeking_goes_on sees provides library room found other, _, _, rfl, rfl,
    library.adds (store.adds_withFrame _), comesRound.tail ⟨_, found, rfl⟩, lacks.withFrame _⟩

end Search

end SmallScheme
