import SmallScheme.Proofs.CircularLists.Refusals
import SmallScheme.Proofs.CircularLists.Searches
import SmallScheme.Proofs.Folds

namespace SmallScheme

/-!
# Applying operations to circular lists

Main result.  The operations of the host that go through a whole list list its items first, and so
does folding from the right, which reverses the list: a circular list is refused.  The other
operations of the library take one pair after the other until the list is over.  On a circular list
they go on for ever unless something else makes them stop: a call that does not return or that
changes the list, or an item that is found.
-/

namespace CircularLists

/-- Operations of the root that go through a whole list, at least if nothing is found in it. -/
def operations : List String :=
  ["length", "reverse", "append", "list->vector", "apply", "map", "for-each", "fold-left",
    "fold-right", "reduce", "filter", "last-pair", "memq", "member"]

/-- The operation that is named so goes through the whole list, whose items are listed before. -/
inductive Listed (list : Value) : String → List Value → Prop
  | primitive {operation : Primitive} {operands : List Value} :
      operation.Walks list operands →
      Listed list operation.name operands
  | special {keyword : SpecialForm} {operands : List Value} :
      Special.Walks list keyword operands →
      Listed list keyword.name operands
  | foldRight {f init : Value} : Listed list "fold-right" [f, init, list]

/--
The operation that is named so takes one pair of the list after the other.  What it calls returns
and keeps the list, and what it looks for is not there.
-/
inductive Followed
    (host : Host)
    (limit : Nat)
    (begun : Store)
    (machine : Machine)
    (list : Value) : String → List Value → Prop
  | foldLeft {f init : Value} :
      f.isProcedure →
      (∀ items ending,
        machine.store.Spells list items ending →
        CallsReturn (fun sum item => Machine.Serves host limit (.call f [sum, item])) items init
          (Folds.Keeps begun machine.store list) machine) →
      Followed host limit begun machine list "fold-left" [f, init, list]
  | reduce {f init : Value} :
      f.isProcedure →
      (∀ items ending,
        machine.store.Spells list items ending →
        CallsReturn (fun sum item => Machine.Serves host limit (.call f [sum, item])) items.tail
          (items.headD init) (Folds.Keeps begun machine.store list) machine) →
      Followed host limit begun machine list "reduce" [f, init, list]
  | filter {keep : Value} :
      keep.isProcedure →
      (∀ items ending,
        machine.store.Spells list items ending →
        CallsReturn (fun _ item => Machine.Serves host limit (.call keep [item])) items .unspecified
          (Folds.Keeps begun machine.store list) machine) →
      Followed host limit begun machine list "filter" [keep, list]
  | lastPair : Followed host limit begun machine list "last-pair" [list]
  | search (seeking : Seeking) {value : Value} :
      machine.store.Lacks seeking value list →
      Followed host limit begun machine list seeking.name [value, list]

/--
The form applies what the name of the operation means in the root.  The values of its operands leave
the machine that is ready for the operation, and the library.
-/
def Applies
    (settings : Settings)
    (host : Host)
    (limit : Nat)
    (scope : Scope)
    (form : Value)
    (machine : Machine)
    (operation : String)
    (operands : List Value)
    (ready : Machine) : Prop :=
  ∃ callee name forms,
    Session.RootBinds settings operation callee ∧
      machine.store.Spells form (.symbol name :: forms) .nil ∧
        memberName? name = none ∧
          machine.store.lookup? scope name = some callee ∧
            Machine.ServesInTurn host limit machine.store scope forms machine operands ready ∧
              (Session.start settings).store.KeepsLibrary ready.store

end CircularLists

open CircularLists

variable
  {settings : Settings}
  {host : Host}
  {limit depth : Nat}
  {begun store : Store}
  {context : Context}
  {callee list : Value}
  {operands : List Value}
  {operation : String}
  {machine : Machine}

/-- Of a circular list there are parts as long as one likes. -/
theorem Store.ComesRound.exists_spells
    (comesRound : store.ComesRound list)
    (count : Nat) :
    ∃ items ending, items.length = count ∧ store.Spells list items ending := by
  induction count generalizing list with
  | zero => exact ⟨[], list, rfl, .nothing⟩
  | succ count inductionHypothesis =>
      obtain ⟨address, item, tail, rfl, found⟩ := comesRound.exists_pair
      obtain ⟨items, ending, size, spells⟩ := inductionHypothesis (comesRound.tail ⟨_, found, rfl⟩)
      exact ⟨item :: items, ending, congrArg (· + 1) size, .pair found spells⟩

theorem Session.RootBinds.eq_of_initial
    (isBound : RootBinds settings operation callee)
    {value : Value}
    (named : initialBindings.lookup operation = some value) :
    callee = value :=
  Option.some.inj (isBound.symm.trans ((offers_start settings).root named))

namespace CircularLists

open Script Folds

/-- As many calls return as one likes, and for as long a part of the list. -/
theorem exists_returns
    {calling : Calling}
    {start : List Value → Value}
    {called : List Value → List Value}
    (comesRound : store.ComesRound list)
    (returns :
      ∀ items ending,
        store.Spells list items ending →
        CallsReturn calling (called items) (start items) (Keeps begun store list)
          ⟨store, context, depth⟩)
    (count : Nat) :
    ∃ items ending,
      count ≤ items.length ∧
        ChainStays (Keeps begun store list) list items ending ∧
          CallsReturn calling (called items) (start items) (Keeps begun store list)
            ⟨store, context, depth⟩ := by
  obtain ⟨items, ending, size, spells⟩ := comesRound.exists_spells count
  exact ⟨items, ending, size.ge, .of_keepsList spells And.right, returns items ending spells⟩

/-- All of the operations are there in a new session with the library. -/
theorem exists_rootBinds
    (hasLibrary : settings.library = true)
    (enough : Library.levels ≤ settings.limit) :
    ∀ operation ∈ operations, ∃ callee, Session.RootBinds settings operation callee := by
  obtain ⟨left, right, reduction, selection, folds⟩ := Session.exists_hasFolds hasLibrary enough
  obtain ⟨_, lastPair⟩ := Session.exists_provides_lastPair hasLibrary enough
  obtain ⟨_, identical⟩ := Session.exists_provides_seeking hasLibrary enough .identical
  obtain ⟨_, equal⟩ := Session.exists_provides_seeking hasLibrary enough .equal
  have initial {name : String} {value : Value}
      (named : Session.initialBindings.lookup name = some value) :
      ∃ callee, Session.RootBinds settings name callee :=
    ⟨value, (Session.offers_start settings).root named⟩
  simp only [operations, List.forall_mem_cons]
  exact ⟨initial rfl, initial rfl, initial rfl, initial rfl, initial rfl, initial rfl, initial rfl,
    ⟨_, folds.left.1⟩, ⟨_, folds.right.1⟩, ⟨_, folds.reduction.1⟩, ⟨_, folds.selection.1⟩,
    ⟨_, lastPair.1⟩, ⟨_, identical.1⟩, ⟨_, equal.1⟩, List.forall_mem_nil _⟩

/-- An operation that follows a circular list never ends. -/
theorem Followed.isEndless
    (hasLibrary : settings.library = true)
    (enough : Library.levels ≤ settings.limit)
    (isBound : Session.RootBinds settings operation callee)
    (followed :
      Followed host limit (Session.start settings).store ⟨store, context, depth⟩ list operation
        operands)
    (library : (Session.start settings).store.KeepsLibrary store)
    (comesRound : store.ComesRound list)
    (room : depth + 3 ≤ limit) :
    Application.takesForms callee = false ∧
      (Application.apply host callee operands).IsEndless host limit ⟨store, context, depth⟩ := by
  obtain ⟨left, right, reduction, selection, folds⟩ := Session.exists_hasFolds hasLibrary enough
  have isKept : Keeps (Session.start settings).store store list store :=
    ⟨library, .refl store list⟩
  have sees {name : String} {address : Nat}
      (bound : Session.RootBinds settings name (.procedure address)) :=
    (Session.offers_start settings).sees_of_bound bound
  cases followed with
  | foldLeft isProcedure returns =>
      cases isBound.symm.trans folds.left.1
      exact ⟨rfl, isEndless_of_left folds.sees folds.left
        (callable_of_isProcedure isProcedure room _ _ _ _) isKept
        (exists_returns comesRound returns)⟩
  | reduce isProcedure returns =>
      cases isBound.symm.trans folds.reduction.1
      exact ⟨rfl, isEndless_of_reduction folds.sees folds.left folds.reduction
        (callable_of_isProcedure isProcedure room _ _ _ _) isKept
        (exists_returns comesRound returns)⟩
  | filter isProcedure returns =>
      cases isBound.symm.trans folds.selection.1
      exact ⟨rfl, isEndless_of_selection folds.sees folds.selection
        (callable_of_isProcedure isProcedure room _ _ _ _) isKept
        (exists_returns comesRound returns)⟩
  | lastPair =>
      obtain ⟨address, provides⟩ := Session.exists_provides_lastPair hasLibrary enough
      cases isBound.symm.trans provides.1
      exact ⟨rfl, Search.isEndless_of_lastPair (sees isBound) provides library room comesRound⟩
  | search seeking lacks =>
      obtain ⟨address, provides⟩ := Session.exists_provides_seeking hasLibrary enough seeking
      cases isBound.symm.trans provides.1
      exact ⟨rfl, Search.isEndless_of_seeking (sees isBound) provides library room comesRound lacks⟩

/-- An operation that lists the items of a circular list ends with a type fault. -/
theorem Listed.endsRefused
    {scope : Scope}
    {form : Value}
    {name : String}
    {forms : List Value}
    {ready : Machine}
    (hasLibrary : settings.library = true)
    (enough : Library.levels ≤ settings.limit)
    (isBound : Session.RootBinds settings operation callee)
    (listed : Listed list operation operands)
    (spells : machine.store.Spells form (.symbol name :: forms) .nil)
    (ordinary : memberName? name = none)
    (found : machine.store.lookup? scope name = some callee)
    (inTurn :
      Machine.ServesInTurn host limit machine.store scope forms machine operands ready)
    (library : (Session.start settings).store.KeepsLibrary ready.store)
    (comesRound : ready.store.ComesRound list)
    (room : ready.depth + 3 ≤ limit) :
    (Evaluation.script host scope form).EndsRefused host limit machine := by
  obtain ⟨store, context, depth⟩ := ready
  have keeps : machine.store.KeepsCode machine.store := ⟨id, id⟩
  cases listed with
  | @primitive operation _ walks =>
      have named : Session.initialBindings.lookup operation.name = some (.primitive operation) := by
        cases walks <;> rfl
      obtain rfl := isBound.eq_of_initial named
      exact (Application.goesOn_call spells keeps ordinary found rfl inTurn).endsRefused
        (Application.endsRefused_primitive (walks.refuses comesRound))
  | @special keyword _ walks =>
      have named : Session.initialBindings.lookup keyword.name = some (.special keyword) := by
        cases walks <;> rfl
      obtain rfl := isBound.eq_of_initial named
      exact (Application.goesOn_use spells keeps ordinary found
        (inTurn.length_eq ▸ walks.accepted)).endsRefused (walks.isRefused inTurn comesRound).ends
  | foldRight =>
      obtain ⟨left, right, _, _, folds⟩ := Session.exists_hasFolds hasLibrary enough
      cases isBound.symm.trans folds.right.1
      have enoughLevels : depth + 2 ≤ limit := Nat.le_of_succ_le room
      exact (Application.goesOn_call spells keeps ordinary found rfl inTurn).endsRefused
        (endsRefused_of_right folds.sees folds.right enoughLevels library comesRound _ _)

end CircularLists

/-- Evaluating operands leaves as many levels open as there were. -/
theorem Machine.ServesInTurn.depth_eq
    {base : Store}
    {scope : Scope}
    {forms values : List Value}
    {last : Machine}
    (inTurn : ServesInTurn host limit base scope forms machine values last) :
    last.depth = machine.depth := by
  induction inTurn with
  | nothing => rfl
  | form _ served _ inductionHypothesis => exact inductionHypothesis.trans served.depth_eq

/--
The root binds all operations that go through a whole list.  Wherever one of them is applied to
operands among which there is a circular list that it goes through: if it lists the items of that
before, finishing the application ends with a type fault; if it takes one pair after the other, and
what it calls returns and what it looks for is not there, no fuel is enough.
-/
theorem circular_lists_are_refused_if_they_are_listed
    {settings : Settings}
    (hasLibrary : settings.library = true)
    (enough : Library.levels ≤ settings.limit) :
    (∀ operation ∈ operations, ∃ callee, Session.RootBinds settings operation callee) ∧
      ∀ {host : Host} {limit : Nat} {scope : Scope} {form : Value} {machine ready : Machine}
        {operation : String} {operands : List Value} {list : Value},
        Applies settings host limit scope form machine operation operands ready →
        ready.store.ComesRound list →
        machine.depth + 3 ≤ limit →
        (Listed list operation operands →
          Machine.Refuses host limit (.finish (.tail scope form)) machine) ∧
          (Followed host limit (Session.start settings).store ready list operation operands →
            ∀ fuel, Machine.serve host limit fuel (.finish (.tail scope form)) machine = none) := by
  refine ⟨exists_rootBinds hasLibrary enough, ?_⟩
  · rintro host limit scope form machine ⟨store, context, depth⟩ operation operands list
      ⟨callee, name, forms, isBound, spells, ordinary, found, inTurn, library⟩ comesRound room
    obtain rfl : depth = machine.depth := inTurn.depth_eq
    have amounts :
        Machine.stepScript host (.tail scope form) = .inr (Evaluation.script host scope form) :=
      rfl
    constructor
    · intro listed
      exact Machine.refuses_finish amounts
        (listed.endsRefused hasLibrary enough isBound spells ordinary found inTurn library
          comesRound room)
    · intro followed
      obtain ⟨applied, endless⟩ :=
        followed.isEndless hasLibrary enough isBound library comesRound room
      exact (Script.goesOn_defer amounts machine).isEndless
        ((Application.goesOn_call spells ⟨id, id⟩ ordinary found applied inTurn).isEndless endless)

/-- There may be a circular list, a scope that binds it, and a form that is spelled like this. -/
private theorem exists_ring_and_form
    {begun : Store}
    {bindings : List (String × Value)}
    (sees : begun.Sees ⟨0, []⟩ bindings)
    (parts : List Value) :
    ∃ (ring form : Value) (scope : Scope) (store : Store),
      begun.KeepsLibrary store ∧
        store.ComesRound ring ∧
          store.Spells form parts .nil ∧ store.Sees scope (("xs", ring) :: bindings) := by
  let ring := Value.pair begun.pairs.size
  let made := (begun.newPair (.integer 1) ring).2
  let entered := made.withFrame ⟨[("xs", ring)], made.namespaces ⟨0, []⟩⟩
  have addsRing : begun.Adds made := Store.adds_newPair _ _ _
  have addsFrame : made.Adds entered := made.adds_withFrame _
  have addsForm := Store.adds_newListFrom parts.reverse .nil entered
  have isRound : entered.HasTail ring ring := ⟨⟨.integer 1, ring⟩, Array.getElem?_push_size, rfl⟩
  have comesRound : entered.ComesRound ring := ⟨ring, .refl, .single isRound⟩
  have spells := (Store.newListFrom_spells parts.reverse .nil entered).2 .nothing
  rw [List.reverse_reverse, List.append_nil] at spells
  have seesRing := (sees.deepened addsRing.frames).entered [("xs", ring)] (made.namespaces ⟨0, []⟩)
  have adds := (addsRing.trans addsFrame).trans addsForm
  exact ⟨ring, _, _, _, (Store.KeepsLibrary.refl begun).adds adds, comesRound.adds addsForm, spells,
    seesRing.deepened addsForm.frames⟩

/-- Calls of the test for identity return, whatever they are given, and change nothing. -/
private theorem tests_return
    {kept : Store → Prop}
    (lasts : Store.Lasts kept)
    (isKept : kept store)
    (items : List Value)
    (sum : Value) :
    CallsReturn
      (fun sum item =>
        Machine.Serves Host.absent 512 (.call (.primitive (.equivalence .same)) [sum, item]))
      items sum kept ⟨store, default, 0⟩ := by
  induction items generalizing kept store sum with
  | nil => trivial
  | cons item items inductionHypothesis =>
      intro after adds
      have serves :
          Machine.Serves Host.absent 512 (.call (.primitive (.equivalence .same)) [sum, item])
            ⟨after, default, 0⟩ (.boolean (after.identical sum item)) ⟨after, default, 0⟩ :=
        Machine.serves_call_iff.mpr
          ⟨by decide, Application.concludes_primitive
            (Seeking.identical.apply_operation Host.absent after sum item)⟩
      exact ⟨_, ⟨after, default, 0⟩, serves, lasts isKept adds, .of_adds (.refl after),
        inductionHypothesis lasts.andKeepsAdded ⟨lasts isKept adds, .of_adds (.refl after)⟩ _⟩

/--
In a usual session, the length of a circular list is refused, and folding it from the left with the
test for identity never ends.
-/
theorem ring_has_no_length_and_is_folded_for_ever :
    (∃ (ring form : Value) (scope : Scope) (machine : Machine),
      machine.store.ComesRound ring ∧
        machine.store.lookup? scope "xs" = some ring ∧
          machine.store.Spells form [.symbol "length", .symbol "xs"] .nil ∧
            Machine.Refuses Host.absent 512 (.finish (.tail scope form)) machine) ∧
      ∃ (ring form : Value) (scope : Scope) (machine : Machine),
        machine.store.ComesRound ring ∧
          machine.store.lookup? scope "xs" = some ring ∧
            machine.store.Spells form
                [.symbol "fold-left", .symbol "eq?", .boolean false, .symbol "xs"] .nil ∧
              ∀ fuel,
                Machine.serve Host.absent 512 fuel (.finish (.tail scope form)) machine = none := by
  obtain ⟨bound, applied⟩ :=
    @circular_lists_are_refused_if_they_are_listed Settings.usual rfl (by decide)
  obtain ⟨left, isLeft⟩ := bound "fold-left" (by decide)
  have sees := (Session.offers_start Settings.usual).sees_of_bound isLeft
  have isLength : Session.RootBinds Settings.usual "length" (.primitive (.listing .length)) :=
    (Session.offers_start Settings.usual).root rfl
  constructor
  · obtain ⟨ring, form, scope, store, library, comesRound, spells, seesRing⟩ :=
      exists_ring_and_form sees [.symbol "length", .symbol "xs"]
    have found : store.lookup? scope "xs" = some ring := seesRing.means rfl
    have inTurn :
        Machine.ServesInTurn Host.absent 512 store scope [.symbol "xs"] ⟨store, default, 0⟩ [ring]
          ⟨store, default, 0⟩ :=
      Machine.servesInTurn_of_means (.cons (Store.means_symbol found) .nil) (by decide)
        (.cons (.code (.symbol "xs")) .nil) ⟨id, id⟩ (by decide)
    have applies :
        Applies Settings.usual Host.absent 512 scope form ⟨store, default, 0⟩ "length" [ring]
          ⟨store, default, 0⟩ :=
      ⟨_, "length", _, isLength, spells, by decide, seesRing.means rfl, inTurn, library⟩
    exact ⟨ring, form, scope, ⟨store, default, 0⟩, comesRound, found, spells,
      (applied applies comesRound (show 0 + 3 ≤ 512 by decide)).1 (.primitive .length)⟩
  · obtain ⟨ring, form, scope, store, library, comesRound, spells, seesRing⟩ :=
      exists_ring_and_form sees [.symbol "fold-left", .symbol "eq?", .boolean false, .symbol "xs"]
    have found : store.lookup? scope "xs" = some ring := seesRing.means rfl
    have inTurn :
        Machine.ServesInTurn Host.absent 512 store scope
          [.symbol "eq?", .boolean false, .symbol "xs"] ⟨store, default, 0⟩
          [.primitive (.equivalence .same), .boolean false, ring] ⟨store, default, 0⟩ :=
      Machine.servesInTurn_of_means
        (.cons (Store.means_symbol (seesRing.means rfl))
          (.cons (Store.means_boolean false) (.cons (Store.means_symbol found) .nil)))
        (by decide)
        (.cons (.code (.symbol "eq?")) (.cons (.code (.boolean false))
          (.cons (.code (.symbol "xs")) .nil)))
        ⟨id, id⟩ (by decide)
    have applies :
        Applies Settings.usual Host.absent 512 scope form ⟨store, default, 0⟩ "fold-left"
          [.primitive (.equivalence .same), .boolean false, ring] ⟨store, default, 0⟩ :=
      ⟨left, "fold-left", _, isLeft, spells, by decide, seesRing.means rfl, inTurn, library⟩
    have lasts := Folds.lasts_keeps (Session.start Settings.usual).store store ring
    exact ⟨ring, form, scope, ⟨store, default, 0⟩, comesRound, found, spells,
      (applied applies comesRound (show 0 + 3 ≤ 512 by decide)).2 (.foldLeft rfl fun items _ _ =>
        tests_return lasts ⟨library, .refl store ring⟩ items _)⟩

/-- In a usual session, looking for the last pair of a circular list never ends. -/
theorem last_pair_of_ring_is_sought_for_ever :
    ∃ (ring form : Value) (scope : Scope) (machine : Machine),
      (∃ callee,
        Session.RootBinds Settings.usual "last-pair" callee ∧
          machine.store.lookup? scope "last-pair" = some callee) ∧
        machine.store.ComesRound ring ∧
          machine.store.lookup? scope "xs" = some ring ∧
            machine.store.Spells form [.symbol "last-pair", .symbol "xs"] .nil ∧
              ∀ fuel,
                Machine.serve Host.absent 512 fuel (.finish (.tail scope form)) machine = none := by
  obtain ⟨address, provides⟩ :=
    @Session.exists_provides_lastPair Settings.usual rfl (by decide)
  have sees := (Session.offers_start Settings.usual).sees_of_bound provides.1
  obtain ⟨ring, form, scope, store, library, comesRound, spells, seesRing⟩ :=
    exists_ring_and_form sees [.symbol "last-pair", .symbol "xs"]
  have found : store.lookup? scope "xs" = some ring := seesRing.means rfl
  have foundSearch : store.lookup? scope "last-pair" = some (.procedure address) :=
    seesRing.means rfl
  have inTurn :
      Machine.ServesInTurn Host.absent 512 store scope [.symbol "xs"] ⟨store, default, 0⟩ [ring]
        ⟨store, default, 0⟩ :=
    Machine.servesInTurn_of_means (.cons (Store.means_symbol found) .nil) (by decide)
      (.cons (.code (.symbol "xs")) .nil) ⟨id, id⟩ (by decide)
  have endless :
      (Application.apply Host.absent (.procedure address) [ring]).IsEndless Host.absent 512
        ⟨store, default, 0⟩ :=
    Search.isEndless_of_lastPair sees provides library (by decide) comesRound
  refine ⟨ring, form, scope, ⟨store, default, 0⟩, ⟨_, provides.1, foundSearch⟩, comesRound, found,
    spells, ?_⟩
  exact (Script.goesOn_defer rfl _).isEndless
    ((Application.goesOn_call spells ⟨id, id⟩ (by decide) foundSearch rfl inTurn).isEndless endless)

end SmallScheme
