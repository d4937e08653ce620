import SmallScheme.Proofs.Store.Representation

namespace SmallScheme

/-!
# Scopes agree with their reference

Main result.  However operations on scopes follow one another, on any number of scopes in any store,
their answers are those of the reference and the scopes represent its forest.  Whatever follows, a
failed operation has changed nothing, no binding is lost, the bindings of a root stay as they are,
and the namespaces of a scope change only by what is added to the scope itself.
-/

/-! What fails leaves the store as it was. -/

namespace Store

variable
  {store : Store}
  {scope : Scope}
  {name : String}
  {value : Value}
  {fault : Fault}

theorem define_of_error
    (failed : (define scope name value store).1 = .error fault) :
    (define scope name value store).2 = store := by
  unfold define at failed ⊢
  cases bound : (store.frameAt scope.frame).find? name with
  | some held => rfl
  | none =>
      rw [bound] at failed
      cases failed

theorem assign_of_error
    (failed : (assign scope name value store).1 = .error fault) :
    (assign scope name value store).2 = store := by
  unfold assign at failed ⊢
  cases held : store.holderIn name scope.frames with
  | none => rfl
  | some holder =>
      rw [held] at failed
      cases isRoot : holder.isRoot with
      | true => simp only [isRoot, ↓reduceIte]
      | false =>
          simp only [isRoot, Bool.false_eq_true, ↓reduceIte, reduceCtorEq] at failed

end Store

namespace Scopes

variable {scopes : Scopes}

theorem act_of_failed
    {action : StoreM Unit}
    {fault : Fault}
    (keeps :
      ∀ reason,
        (action scopes.store).1 = .error reason → (action scopes.store).2 = scopes.store)
    (failed : (scopes.act action).1 = .failed fault) :
    (scopes.act action).2 = scopes := by
  unfold Scopes.act at failed ⊢
  cases ran : action scopes.store with
  | mk result store =>
      rw [ran] at failed keeps
      cases result with
      | ok => cases failed
      | error reason =>
          have same : store = scopes.store := keeps reason rfl
          rw [same]

theorem on_of_failed
    {number : Nat}
    {act : Scope → ScopeAnswer × Scopes}
    {fault : Fault}
    (keeps : ∀ scope, (act scope).1 = .failed fault → (act scope).2 = scopes)
    (failed : (scopes.on number act).1 = .failed fault) :
    (scopes.on number act).2 = scopes := by
  unfold Scopes.on at failed ⊢
  cases made : scopes.made[number]? with
  | some scope =>
      rw [made] at failed
      exact keeps scope failed
  | none => rfl

/-- An operation that fails leaves the store as it was. -/
theorem perform_of_failed
    {operation : ScopeOperation}
    {fault : Fault}
    (failed : (scopes.perform operation).1 = .failed fault) :
    (scopes.perform operation).2 = scopes := by
  cases operation with
  | newRoot => cases failed
  | newChild number => exact on_of_failed (fun _ isFailed => nomatch isFailed) failed
  | define number name value =>
      exact on_of_failed (fun _ => act_of_failed fun _ => Store.define_of_error) failed
  | assign number name value =>
      exact on_of_failed (fun _ => act_of_failed fun _ => Store.assign_of_error) failed
  | resolve number name => exact on_of_failed (fun _ isFailed => nomatch isFailed) failed
  | isBound number name => exact on_of_failed (fun _ isFailed => nomatch isFailed) failed
  | useNamespace number name => exact on_of_failed (fun _ isFailed => nomatch isFailed) failed
  | namespaces number => exact on_of_failed (fun _ isFailed => nomatch isFailed) failed
  | localNames number => exact on_of_failed (fun _ isFailed => nomatch isFailed) failed

end Scopes

/-! What lasts. -/

theorem Scopes.Represents.parent?_eq_none
    {scopes : Scopes}
    {forest : Forest}
    (represents : scopes.Represents forest)
    {number : Nat}
    (isRoot : scopes.isRootAt number = true) :
    forest.parent? number = none := by
  unfold Scopes.isRootAt at isRoot
  cases made : scopes.made[number]? with
  | none =>
      rw [made] at isRoot
      cases isRoot
  | some scope =>
      obtain ⟨plain, found⟩ := represents.exists_plain made
      rw [made, Option.any_some, represents.isRoot_eq made found] at isRoot
      rw [Forest.parent?, found]
      exact Option.isNone_iff_eq_none.mp isRoot

/-- A new scope inside another one has the namespaces of that one. -/
theorem Scopes.namespacesAt?_newChild
    {scopes : Scopes}
    {number : Nat}
    {scope : Scope}
    (made : scopes.made[number]? = some scope) :
    (scopes.perform (.newChild number)).2.namespacesAt? scopes.made.length =
      scopes.namespacesAt? number := by
  have added :
      (scopes.perform (.newChild number)).2 = (scopes.add (scopes.store.newChild scope)).2 := by
    rw [Scopes.perform, Scopes.on, made]
  rw [added, Scopes.namespacesAt?, Scopes.namespacesAt?, made, Scopes.add,
    List.getElem?_concat_length]
  exact congrArg (fun frame => some frame.namespaces) (Store.frameAt_newFrame _ _)

/-- What holds of scopes, whatever is done with them next. -/
structure Scopes.Lawful (scopes : Scopes) : Prop where
  /-- An operation that fails changes nothing. -/
  failing :
    ∀ operation fault,
      (scopes.perform operation).1 = .failed fault → (scopes.perform operation).2 = scopes
  /-- No binding disappears. -/
  lasting :
    ∀ later number name,
      (scopes.bindingAt? number name).isSome →
      ((performAll Scopes.perform later scopes).2.bindingAt? number name).isSome
  /-- A binding of a root never changes. -/
  immutable :
    ∀ later number name value,
      scopes.isRootAt number →
      scopes.bindingAt? number name = some value →
      (performAll Scopes.perform later scopes).2.bindingAt? number name = some value
  /-- A scope inside another one starts with the namespaces of that one. -/
  inheriting :
    ∀ number,
      (scopes.namespacesAt? number).isSome →
      (scopes.perform (.newChild number)).2.namespacesAt? scopes.made.length =
        scopes.namespacesAt? number
  /-- Only what is added to a scope itself changes its namespaces. -/
  separate :
    ∀ later number,
      (scopes.namespacesAt? number).isSome →
      (∀ name, .useNamespace number name ∉ later) →
      (performAll Scopes.perform later scopes).2.namespacesAt? number =
        scopes.namespacesAt? number

theorem Scopes.Represents.lawful
    {scopes : Scopes}
    {forest : Forest}
    (represents : scopes.Represents forest) :
    scopes.Lawful where
  failing _ _ := Scopes.perform_of_failed
  lasting later number name bound := by
    obtain ⟨value, bound⟩ := Option.isSome_iff_exists.mp bound
    rw [represents.bindingAt?_eq] at bound
    obtain ⟨still, boundLater, _⟩ := Forest.bindingAt?_performAll bound later
    rw [(performAll_agree represents later).2.bindingAt?_eq, boundLater]
    rfl
  immutable later number name value isRoot bound := by
    rw [represents.bindingAt?_eq] at bound
    obtain ⟨still, boundLater, same⟩ := Forest.bindingAt?_performAll bound later
    rw [(performAll_agree represents later).2.bindingAt?_eq, boundLater,
      same (represents.parent?_eq_none isRoot)]
  inheriting number there := by
    obtain ⟨namespaces, isThere⟩ := Option.isSome_iff_exists.mp there
    obtain ⟨scope, made, _⟩ := Option.map_eq_some_iff.mp isThere
    exact Scopes.namespacesAt?_newChild made
  separate later number there elsewhere := by
    obtain ⟨namespaces, isThere⟩ := Option.isSome_iff_exists.mp there
    obtain ⟨scope, made, _⟩ := Option.map_eq_some_iff.mp isThere
    obtain ⟨plain, found⟩ := represents.exists_plain made
    rw [(performAll_agree represents later).2.namespacesAt?_eq, represents.namespacesAt?_eq]
    exact Forest.namespacesAt?_performAll found elsewhere

theorem represents_nothing
    (store : Store) :
    Scopes.Represents ⟨store, []⟩ Forest.empty :=
  ⟨rfl, nofun, nofun⟩

/--
Whatever operations on scopes are carried out one after the other in a store, on however many
scopes, their answers are those of the reference, the scopes then represent the forest that the
reference has come to, and they are lawful.
-/
theorem scopes_agree_with_reference
    (store : Store)
    (operations : List ScopeOperation) :
    (performAll Scopes.perform operations ⟨store, []⟩).1 =
        (performAll Forest.perform operations Forest.empty).1 ∧
      (performAll Scopes.perform operations ⟨store, []⟩).2.Represents
        (performAll Forest.perform operations Forest.empty).2 ∧
      (performAll Scopes.perform operations ⟨store, []⟩).2.Lawful := by
  obtain ⟨sameAnswers, represents⟩ := performAll_agree (represents_nothing store) operations
  exact ⟨sameAnswers, represents, represents.lawful⟩

/-- A binding of the root stays; one that hides it is assigned from the scope inside. -/
example :
    (performAll Scopes.perform
        [.newRoot, .define 0 "x" .nil, .newChild 0, .assign 1 "x" .unspecified,
          .define 1 "x" .unspecified, .newChild 1, .assign 2 "x" .nil, .resolve 1 "x"]
        ⟨Store.empty, []⟩).1 =
      [.made 0, .done, .made 1, .failed (.immutableScope "x"), .done, .made 2, .done,
        .resolved (some .nil)] :=
  rfl

end SmallScheme
