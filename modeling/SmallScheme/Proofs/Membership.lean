import SmallScheme.Primitive.Basic
import SmallScheme.Proofs.LoadedLibrary
import SmallScheme.Proofs.Reals

namespace SmallScheme

/-!
# Identity of values

To ask whether two values are identical is to compare what each of them is taken for: a name, a
real, the empty text or the value itself.  So identity is symmetric and transitive.  It is not
reflexive: not-a-number and the unspecified value are taken for nothing, and neither are regular
expressions, abbreviated forms and programs, for which the comparison has no case.
-/

/-- What a value is taken for when it is compared with another one. -/
inductive Identity
  | name (name : String)
  | real (common : Float)
  /-- A text: its address, or nothing for all empty texts. -/
  | text (address : Option Nat)
  | itself (value : Value)

/-- On two values in this store the operation answers by the relation, and it changes nothing. -/
def Equivalence.AnswersBy
    (host : Host)
    (operation : Equivalence)
    (store : Store)
    (relation : Value → Value → Bool) : Prop :=
  ∀ first second,
    Primitive.apply host (.equivalence operation) [first, second] store =
      (.ok (.boolean (relation first second)), store)

namespace Value

/-- The comparison has a case for the value, in which the value is the same as itself. -/
def HasIdentity : Value → Prop
  | .unspecified => False
  | .real value => value.isNaN = false
  | .regex _ => False
  | .marked _ _ => False
  | .program _ => False
  | _ => True

end Value

namespace Store

variable
  {store : Store}
  {first second third : Value}

def identity? (store : Store) : Value → Option Identity
  | .unspecified => none
  | .real value => (comparedAs? value).map .real
  | .symbol name => some (.name name)
  | .scoped name _ => some (.name name)
  | .text address =>
      some (.text (if (store.textAt address).isEmpty then none else some address))
  | .regex _ => none
  | .marked _ _ => none
  | .program _ => none
  | other => some (.itself other)

/-- Values are identical exactly if both are taken for the same. -/
theorem identical_iff :
    store.identical first second = true ↔
      ∃ common, store.identity? first = some common ∧ store.identity? second = some common := by
  simp only [and_comm (b := store.identity? second = _)]
  cases first with
  | real left =>
      cases second <;> simp [identical, identity?, beq_iff_comparedAs?, and_comm]
  | text left =>
      cases second with
      | text right =>
          by_cases same : left = right
          · simp [identical, identity?, same]
          · cases emptyLeft : (store.textAt left).isEmpty <;>
              cases emptyRight : (store.textAt right).isEmpty <;>
                simp [identical, identity?, same, emptyLeft, emptyRight]
      | _ => simp [identical, identity?]
  | _ => cases second <;> simp [identical, identity?]

theorem identity?_eq_none_iff :
    store.identity? first = none ↔ ¬first.HasIdentity := by
  cases first with
  | real value => simp [identity?, Value.HasIdentity, comparedAs?_eq_none_iff]
  | _ => simp [identity?, Value.HasIdentity]

theorem identical_comm
    (store : Store)
    (first second : Value) :
    store.identical first second = store.identical second first := by
  rw [Bool.eq_iff_iff, identical_iff, identical_iff]
  simp only [and_comm]

theorem identical_trans
    (same : store.identical first second = true)
    (alsoSame : store.identical second third = true) :
    store.identical first third = true := by
  obtain ⟨common, isFirst, isSecond⟩ := identical_iff.mp same
  obtain ⟨other, alsoSecond, isThird⟩ := identical_iff.mp alsoSame
  rw [isSecond] at alsoSecond
  cases alsoSecond
  exact identical_iff.mpr ⟨common, isFirst, isThird⟩

/-- A value is identical to itself exactly if it has an identity. -/
theorem identical_self_iff :
    store.identical first first = true ↔ first.HasIdentity := by
  rw [identical_iff, ← Classical.not_not (a := first.HasIdentity), ← identity?_eq_none_iff]
  cases store.identity? first <;> simp

end Store

/-!
## Searching lists for a value

Main result.  What `memq` of the library finds in a list is decided by identity: it ends with the
first part of the list whose first item is identical to the value, or with the boolean false.  So it
finds a value in a list of just this value exactly if the value is identical to itself.
-/

variable
  {host : Host}
  {limit fuel depth address : Nat}
  {store : Store}
  {context : Context}
  {value list ending result : Value}
  {skipped : List Value}

namespace Search

/-- `(null? xs)` -/
def isOver : Datum :=
  .ofList [.symbol "null?", .symbol "xs"]

/-- `(car xs)` -/
def firstItem : Datum :=
  .ofList [.symbol "car", .symbol "xs"]

/-- `(eq? x (car xs))` -/
def isFound : Datum :=
  .ofList [.symbol "eq?", .symbol "x", firstItem]

/-- `(cdr xs)` -/
def otherItems : Datum :=
  .ofList [.symbol "cdr", .symbol "xs"]

/-- `(memq x (cdr xs))` -/
def searchOn : Datum :=
  .ofList [.symbol "memq", .symbol "x", otherItems]

/-- `(cond ((null? xs) #f) ((eq? x (car xs)) xs) (else (memq x (cdr xs))))` -/
def search : Datum :=
  .ofList [
    .symbol "cond",
    .ofList [isOver, .boolean false],
    .ofList [isFound, .symbol "xs"],
    .ofList [.symbol "else", searchOn]]

end Search

open Search

namespace Store

/-- The root still binds every name that it has bound, to the same value. -/
structure KeepsRoot (before after : Store) : Prop where
  binds :
    ∀ {frame : Frame},
      before.frames[0]? = some frame →
      ∃ later,
        after.frames[0]? = some later ∧
          ∀ {name : String} {value : Value},
            frame.find? name = some value → later.find? name = some value

/-- What is seen from the root is decided by what its frame binds. -/
theorem Sees.of_root
    {after : Store}
    {bindings : List (String × Value)}
    (sees : store.Sees ⟨0, []⟩ bindings)
    (keepsRoot : store.KeepsRoot after) :
    after.Sees ⟨0, []⟩ bindings := by
  have inside : 0 < store.frames.size := sees.within 0 List.mem_cons_self
  have present := Array.getElem?_eq_getElem inside
  obtain ⟨later, found, kept⟩ := keepsRoot.binds present
  constructor
  · intro name value named
    have means := sees.means named
    simp only [lookup?, Scope.frames, lookupIn, frameAt, present, Option.getD_some] at means
    simp only [lookup?, Scope.frames, lookupIn, frameAt, found, Option.getD_some]
    cases bound : store.frames[0].find? name with
    | some value =>
        rw [bound] at means
        rw [kept bound]
        exact means
    | none =>
        rw [bound] at means
        cases means
  · intro frame member
    cases List.mem_singleton.mp member
    exact (Array.getElem?_eq_some_iff.mp found).1

theorem KeepsRoot.of_eq
    {after : Store}
    (same : after.frames[0]? = store.frames[0]?) :
    store.KeepsRoot after :=
  ⟨fun found => ⟨_, same.trans found, id⟩⟩

/-- The address is that of `memq`, which sees itself and what the root starts with. -/
structure HasMemq (store : Store) (address : Nat) : Prop where
  sees : store.Sees ⟨0, []⟩ [("memq", .procedure address)]
  defines : store.Defines ⟨0, []⟩ address ["x", "xs"] search

/-- What has `memq` does so as long as the root, the pairs and the procedures are kept. -/
theorem HasMemq.kept
    {after : Store}
    (hasMemq : store.HasMemq address)
    (retains : store.Retains after)
    (root : after.frames[0]? = store.frames[0]?) :
    after.HasMemq address where
  sees := hasMemq.sees.of_root (.of_eq root)
  defines := hasMemq.defines.retained retains

theorem HasMemq.withFrame
    (hasMemq : store.HasMemq address)
    (frame : Frame) :
    (store.withFrame frame).HasMemq address := by
  have present := Array.getElem?_eq_getElem (hasMemq.sees.within 0 List.mem_cons_self)
  exact hasMemq.kept ⟨id, id⟩ ((store.isDeepenedTo_withFrame frame present).trans present.symm)

/-- Where a search that has come to this part of a list ends, and what with. -/
inductive StopsSearch (store : Store) (value : Value) : Value → Value → Prop
  | missing : StopsSearch store value .nil (.boolean false)
  | found {address : Nat} {head tail : Value}
      (pair : store.pairs[address]? = some ⟨head, tail⟩)
      (same : store.identical value head = true) :
      StopsSearch store value (.pair address) (.pair address)

theorem spells_withFrame
    (spells : store.Spells list skipped ending)
    (frame : Frame) :
    (store.withFrame frame).Spells list skipped ending := by
  induction spells with
  | nothing => exact .nothing
  | pair found _ inductionHypothesis => exact .pair found inductionHypothesis

theorem StopsSearch.withFrame
    (stops : store.StopsSearch value ending result)
    (frame : Frame) :
    (store.withFrame frame).StopsSearch value ending result := by
  cases stops with
  | missing => exact .missing
  | found pair same => exact .found pair same

end Store

namespace Search

/-- What a search sees that has been entered with a value and a list. -/
def bindings (address : Nat) (value list : Value) : List (String × Value) :=
  [("xs", list), ("x", value), ("memq", .procedure address)]

section Tests

variable
  {scope : Scope}
  {pairAddress : Nat}
  {head tail : Value}

theorem means_isOver
    {seen : List (String × Value)}
    (sees : store.Sees scope seen)
    (isList : (seen ++ Session.initialBindings).lookup "xs" = some list)
    (test :
      (seen ++ Session.initialBindings).lookup "null?" = some (.primitive (.kindTest .nil))) :
    store.Means host limit 2 scope isOver (.boolean list.isNil) :=
  Store.means_use_of_apply (by decide) (sees.means test)
    (.cons (Store.means_symbol (sees.means isList)) .nil) rfl

theorem means_firstItem
    {seen : List (String × Value)}
    (sees : store.Sees scope seen)
    (isList : (seen ++ Session.initialBindings).lookup "xs" = some (.pair pairAddress))
    (part : (seen ++ Session.initialBindings).lookup "car" = some (.primitive (.listing .head)))
    (pair : store.pairs[pairAddress]? = some ⟨head, tail⟩) :
    store.Means host limit 2 scope firstItem head := by
  refine Store.means_use_of_apply (by decide) (sees.means part)
    (.cons (Store.means_symbol (sees.means isList)) .nil) ?_
  change (Except.ok (store.pairAt pairAddress).head, store) = _
  rw [Store.pairAt_eq pair]

theorem means_otherItems
    {seen : List (String × Value)}
    (sees : store.Sees scope seen)
    (isList : (seen ++ Session.initialBindings).lookup "xs" = some (.pair pairAddress))
    (part : (seen ++ Session.initialBindings).lookup "cdr" = some (.primitive (.listing .tail)))
    (pair : store.pairs[pairAddress]? = some ⟨head, tail⟩) :
    store.Means host limit 2 scope otherItems tail := by
  refine Store.means_use_of_apply (by decide) (sees.means part)
    (.cons (Store.means_symbol (sees.means isList)) .nil) ?_
  change (Except.ok (store.pairAt pairAddress).tail, store) = _
  rw [Store.pairAt_eq pair]

theorem means_isFound
    (sees : store.Sees scope (bindings address value (.pair pairAddress)))
    (pair : store.pairs[pairAddress]? = some ⟨head, tail⟩)
    {found : Bool}
    (decided : store.identical value head = found) :
    store.Means host limit 3 scope isFound (.boolean found) := by
  subst decided
  exact Store.means_use_of_apply (by decide) (sees.means rfl)
    (.cons ((Store.means_symbol (sees.means rfl)).mono (by decide))
      (.cons (means_firstItem sees rfl rfl pair) .nil))
    rfl

/-- A search in the empty list ends with false. -/
theorem finds_at_end
    (sees : store.Sees scope (bindings address value .nil))
    (room : depth + 3 ≤ limit)
    (enough : 7 ≤ fuel) :
    Machine.Finds host limit (fuel + 1) scope search ⟨store, context, depth⟩ (.boolean false) := by
  refine Machine.Finds.of_use (by decide) (sees.means rfl) rfl ?_
  intro forms encodes
  obtain _ | ⟨encodesOver, _⟩ := encodes
  refine Machine.clauses_ends_of_true (by nofun) (by nofun) encodesOver (means_isOver sees rfl rfl)
    (by omega) (by omega) ?_
  exact Machine.Finds.of_means (by nofun) (Store.means_boolean false) (by omega) (by omega)

/-- A search ends at a pair whose item is identical to the value. -/
theorem finds_at_pair
    (sees : store.Sees scope (bindings address value (.pair pairAddress)))
    (pair : store.pairs[pairAddress]? = some ⟨head, tail⟩)
    (same : store.identical value head = true)
    (room : depth + 3 ≤ limit)
    (enough : 7 ≤ fuel) :
    Machine.Finds host limit (fuel + 1) scope search ⟨store, context, depth⟩
      (.pair pairAddress) := by
  refine Machine.Finds.of_use (by decide) (sees.means rfl) rfl ?_
  intro forms encodes
  obtain _ | ⟨encodesOver, _ | ⟨encodesFound, encodesElse⟩⟩ := encodes
  refine Machine.clauses_ends_of_false (by nofun) encodesOver (means_isOver sees rfl rfl) (by omega)
    (by omega) ?_
  refine Machine.clauses_ends_of_true (by nofun) (by simp) encodesFound
    (means_isFound sees pair same) room enough ?_
  exact Machine.Finds.of_means (by nofun) (Store.means_symbol (sees.means rfl)) (by omega)
    (by omega)

/-- A search passes over a pair whose item is another value. -/
theorem finds_further
    (sees : store.Sees scope (bindings address value (.pair pairAddress)))
    (pair : store.pairs[pairAddress]? = some ⟨head, tail⟩)
    (other : store.identical value head = false)
    (room : depth + 3 ≤ limit)
    (enough : 7 ≤ fuel)
    (goesOn :
      (Application.apply host (.procedure address) [value, tail]).Ends host limit fuel
        ⟨store, context, depth⟩ result) :
    Machine.Finds host limit (fuel + 2) scope search ⟨store, context, depth⟩ result := by
  refine Machine.Finds.of_use (by decide) (sees.means rfl) rfl ?_
  intro forms encodes
  obtain _ | ⟨encodesOver, _ | ⟨encodesFound, _ | ⟨encodesElse, ⟨⟩⟩⟩⟩ := encodes
  refine Machine.clauses_ends_of_false (by nofun) encodesOver (means_isOver sees rfl rfl) (by omega)
    (by omega) ?_
  refine Machine.clauses_ends_of_false (by nofun) encodesFound (means_isFound sees pair other) room
    (by omega) ?_
  refine Machine.clauses_ends_of_else encodesElse ?_
  exact Machine.Finds.of_call (by decide) (sees.means rfl) rfl
    (.cons ((Store.means_symbol (sees.means rfl)).mono (by decide))
      (.cons (means_otherItems sees rfl rfl pair) .nil))
    (by omega) (by omega) goesOn

end Tests

end Search

open Search

/--
From every store that has `memq`, it ends where the search stops; each item that is skipped takes
two units of fuel.
-/
theorem Store.HasMemq.ends
    (hasMemq : store.HasMemq address)
    (room : depth + 3 ≤ limit)
    (spells : store.Spells list skipped ending)
    (others : ∀ item ∈ skipped, store.identical value item = false)
    (stops : store.StopsSearch value ending result) :
    (Application.apply host (.procedure address) [value, list]).Ends host limit
      (2 * skipped.length + 8) ⟨store, context, depth⟩ result := by
  induction skipped generalizing store list with
  | nil =>
      cases spells
      have entered := hasMemq.sees.entered [("xs", ending), ("x", value)] (store.namespaces ⟨0, []⟩)
      refine Machine.apply_ends hasMemq.defines (by decide) rfl ?_
      cases stops with
      | missing => exact finds_at_end entered room (by decide)
      | found pair same => exact finds_at_pair entered pair same room (by decide)
  | cons item skipped inductionHypothesis =>
      obtain ⟨isOther, others⟩ := List.forall_mem_cons.mp others
      cases spells with
      | @pair pairAddress _ _ _ _ found spells =>
          have entered :=
            hasMemq.sees.entered [("xs", .pair pairAddress), ("x", value)]
              (store.namespaces ⟨0, []⟩)
          refine Machine.apply_ends hasMemq.defines (by decide) rfl ?_
          have enough : 7 ≤ 2 * skipped.length + 8 := by omega
          refine finds_further entered found isOther room enough ?_
          exact inductionHypothesis (hasMemq.withFrame _) (spells_withFrame spells _) others
            (stops.withFrame _)

/-- What the root binds, and what it binds in every new session, is seen from there. -/
theorem Store.Offers.sees_of_root
    {bindings defined : List (String × Value)}
    (offers : store.Offers defined)
    (bound :
      ∀ {name : String} {value : Value},
        bindings.lookup name = some value → (store.frameAt 0).find? name = some value) :
    store.Sees ⟨0, []⟩ bindings where
  means {name value} named := by
    have here : (store.frameAt 0).find? name = some value := by
      rw [List.lookup_append] at named
      cases found : bindings.lookup name with
      | some other =>
          rw [found] at named
          exact Option.some.inj named ▸ bound found
      | none =>
          rw [found, Option.none_or] at named
          exact offers.root named
    simp only [lookup?, Scope.frames, lookupIn, here]
  within frame member := by
    obtain ⟨_, user⟩ := offers.user
    have inside := (Array.getElem?_eq_some_iff.mp user).1
    cases List.mem_singleton.mp member
    exact Nat.zero_lt_of_lt inside

/-- What the root binds to a name is seen from there, besides what it binds in every session. -/
theorem Store.Offers.sees_of_bound
    {defined : List (String × Value)}
    {name : String}
    (offers : store.Offers defined)
    (bound : (store.frameAt 0).find? name = some value) :
    store.Sees ⟨0, []⟩ [(name, value)] := by
  refine offers.sees_of_root fun {other found} named => ?_
  rw [List.lookup_cons] at named
  split at named
  case h_1 same =>
    rw [eq_of_beq same]
    exact bound.trans named
  case h_2 => cases named

namespace Session

theorem hasForm_search :
    Library.HasForm (.definition "memq" ["x", "xs"] search) :=
  Library.hasForm_of_readsAs (by decide +kernel) _ (List.mem_singleton_self _)

/-- Every new session with the library has `memq`. -/
theorem exists_hasMemq
    {settings : Settings}
    (hasLibrary : settings.library = true)
    (room : Library.levels ≤ settings.limit) :
    ∃ address, (start settings).store.HasMemq address := by
  obtain ⟨address, provides⟩ := exists_provides hasLibrary room hasForm_search
  exact ⟨address, (offers_start settings).sees_of_bound provides.1, provides.defines rfl⟩

end Session

/--
Both operations for it compare values by identity, which is symmetric and transitive; values that
have an identity are identical to themselves, and no others are.  Where there is `memq`, it finds a
value in a list of just the value exactly if the value is identical to itself, and a new session
with the library has `memq` for as long as its root and its code are kept.
-/
theorem identity_is_a_partial_equivalence
    (host : Host)
    (store : Store) :
    Equivalence.same.AnswersBy host store store.identical ∧
    Equivalence.equivalent.AnswersBy host store store.identical ∧
    (∀ first second, store.identical first second = store.identical second first) ∧
    (∀ first second third,
      store.identical first second = true →
      store.identical second third = true →
      store.identical first third = true) ∧
    (∀ value, store.identical value value = true ↔ value.HasIdentity) ∧
    (∀ address limit depth context value list,
      store.HasMemq address →
      depth + 3 ≤ limit →
      store.Spells list [value] .nil →
      (Application.apply host (.procedure address) [value, list]).Ends host limit 10
        ⟨store, context, depth⟩
        (if store.identical value value then list else .boolean false)) ∧
    ∀ settings : Settings,
      settings.library = true →
      Library.levels ≤ settings.limit →
      ∃ address, ∀ after,
        (Session.start settings).store.Retains after →
        after.frames[0]? = (Session.start settings).store.frames[0]? →
        after.HasMemq address := by
  refine ⟨fun _ _ => rfl, fun _ _ => rfl, store.identical_comm,
    fun _ _ _ => Store.identical_trans, fun _ => Store.identical_self_iff, ?_, ?_⟩
  · intro address limit depth context value list hasMemq room spells
    cases same : store.identical value value with
    | true =>
        cases spells with
        | pair found rest =>
            have stops : store.StopsSearch value (.pair _) (.pair _) := .found found same
            exact (hasMemq.ends room .nothing nofun stops).mono (by decide)
    | false => exact hasMemq.ends room spells (by simpa using same) .missing
  · intro settings hasLibrary room
    obtain ⟨address, hasMemq⟩ := Session.exists_hasMemq hasLibrary room
    exact ⟨address, fun _ retains root => hasMemq.kept retains root⟩

/-- In a usual session a name is found in a list of it, however it has been come by. -/
theorem name_is_found_in_list_of_it :
    ∃ (store : Store) (address : Nat) (list : Value),
      store.HasMemq address ∧
        store.Spells list [.symbol "a"] .nil ∧
        store.identical (.scoped "a" ⟨0, []⟩) (.scoped "a" ⟨1, [0]⟩) = true ∧
        (Application.apply Host.absent (.procedure address) [.symbol "a", list]).Ends Host.absent
          512 10 ⟨store, default, 0⟩ list := by
  obtain ⟨-, -, -, -, -, -, offered⟩ := identity_is_a_partial_equivalence Host.absent Store.empty
  obtain ⟨address, kept⟩ := offered Settings.usual rfl (by decide)
  obtain ⟨begun, isBegun⟩ : ∃ begun, begun = (Session.start Settings.usual).store := ⟨_, rfl⟩
  rw [← isBegun] at kept
  let store := (begun.newPair (.symbol "a") .nil).2
  have hasMemq : store.HasMemq address := kept store ⟨Store.getElem?_push_of_some, id⟩ rfl
  have spells : store.Spells (.pair begun.pairs.size) [.symbol "a"] .nil :=
    .pair Array.getElem?_push_size .nothing
  obtain ⟨-, -, -, transitive, -, finds, -⟩ :=
    identity_is_a_partial_equivalence Host.absent store
  exact ⟨store, address, .pair begun.pairs.size, hasMemq, spells,
    transitive _ (.symbol "a") _ rfl rfl,
    finds address 512 0 default _ _ hasMemq (by decide) spells⟩

/-- A regular expression is equal to itself, but not identical. -/
theorem regex_is_not_identical_to_itself :
    Primitive.apply Host.absent (.equivalence .equivalent) [.regex "a", .regex "a"] Store.empty =
        (.ok (.boolean false), Store.empty) ∧
      Primitive.apply Host.absent (.equivalence .alike) [.regex "a", .regex "a"] Store.empty =
        (.ok (.boolean true), Store.empty) :=
  ⟨rfl, rfl⟩

end SmallScheme
