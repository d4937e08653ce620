import Mathlib.Data.Finmap
import Mathlib.Data.Finset.Sort
import Mathlib.Data.String.Basic
import SmallScheme.Store.Scopes

namespace SmallScheme

/-!
# The reference for scopes

In the reference a scope is a finite map from names to values, a parent that was made before it, and
the namespaces in use in the order in which they were added, none of them twice.  The scopes that
have been made form trees.
-/

/-- A scope of the reference. -/
structure PlainScope where
  bindings : Finmap fun _ : String => Value
  parent : Option Nat
  namespaces : List String
  distinct : namespaces.Nodup

namespace PlainScope

/-- The scope with a value for a name. -/
def bind (name : String) (value : Value) (scope : PlainScope) : PlainScope :=
  { scope with bindings := scope.bindings.insert name value }

/-- The scope with one more namespace, unless it is in use already. -/
def use (name : String) (scope : PlainScope) : PlainScope :=
  if inUse : name ∈ scope.namespaces then
    scope
  else
    { scope with
      namespaces := scope.namespaces ++ [name]
      distinct := List.nodup_append_comm.mp (List.nodup_cons.mpr ⟨inUse, scope.distinct⟩) }

theorem parent_bind
    (name : String)
    (value : Value)
    (scope : PlainScope) :
    (scope.bind name value).parent = scope.parent :=
  rfl

theorem parent_use
    (name : String)
    (scope : PlainScope) :
    (scope.use name).parent = scope.parent := by
  unfold use
  split <;> rfl

end PlainScope

/-- What is at a number after an item was added was there before, or it is the added one. -/
theorem getElem?_concat
    {Item : Type}
    {items : List Item}
    {new item : Item}
    {number : Nat}
    (found : (items ++ [new])[number]? = some item) :
    items[number]? = some item ∨ number = items.length ∧ item = new := by
  rcases Nat.lt_trichotomy number items.length with before | rfl | behind
  · rw [List.getElem?_append_left before] at found
    exact .inl found
  · rw [List.getElem?_concat_length] at found
    exact .inr ⟨rfl, (Option.some.inj found).symm⟩
  · rw [List.getElem?_eq_none (by rw [List.length_append]; exact behind)] at found
    cases found

/-- The parent of each scope comes before it. -/
def AreOrdered (scopes : List PlainScope) : Prop :=
  ∀ ⦃number parent : Nat⦄ ⦃scope : PlainScope⦄,
    scopes[number]? = some scope → scope.parent = some parent → parent < number

namespace AreOrdered

variable {scopes : List PlainScope}

theorem append
    (ordered : AreOrdered scopes)
    {new : PlainScope}
    (older : ∀ parent, new.parent = some parent → parent < scopes.length) :
    AreOrdered (scopes ++ [new]) := by
  intro number parent scope found isParent
  rcases getElem?_concat found with foundBefore | ⟨rfl, rfl⟩
  · exact ordered foundBefore isParent
  · exact older parent isParent

theorem modify
    (ordered : AreOrdered scopes)
    (number : Nat)
    {revise : PlainScope → PlainScope}
    (keeps : ∀ scope, (revise scope).parent = scope.parent) :
    AreOrdered (scopes.modify number revise) := by
  intro other parent scope found isParent
  rw [List.getElem?_modify, Option.map_eq_map, Option.map_eq_some_iff] at found
  obtain ⟨scope, found, rfl⟩ := found
  refine ordered found ?_
  split at isParent
  · rwa [keeps] at isParent
  · exact isParent

end AreOrdered

/-- The scopes that have been made, in order. -/
structure Forest where
  scopes : List PlainScope
  ordered : AreOrdered scopes

namespace Forest

def empty : Forest :=
  ⟨[], nofun⟩

/-- The forest with a new scope. -/
def add
    (forest : Forest)
    (new : PlainScope)
    (older : ∀ parent, new.parent = some parent → parent < forest.scopes.length) : Forest :=
  ⟨forest.scopes ++ [new], forest.ordered.append older⟩

/-- The forest with another scope in the place of one, under the same parent. -/
def change
    (forest : Forest)
    (number : Nat)
    (revise : PlainScope → PlainScope)
    (keeps : ∀ scope, (revise scope).parent = scope.parent) : Forest :=
  ⟨forest.scopes.modify number revise, forest.ordered.modify number keeps⟩

/-- The nearest scope that binds a name. -/
def holder? (forest : Forest) (name : String) (number : Nat) : Option Nat :=
  match found : forest.scopes[number]? with
  | none => none
  | some scope =>
      if name ∈ scope.bindings then
        some number
      else
        match isParent : scope.parent with
        | none => none
        | some parent =>
            have : parent < number := forest.ordered found isParent
            forest.holder? name parent
termination_by number

/-- The value that the scope of a number itself binds to a name. -/
def bindingAt? (forest : Forest) (number : Nat) (name : String) : Option Value := do
  let scope ← forest.scopes[number]?
  scope.bindings.lookup name

def namespacesAt? (forest : Forest) (number : Nat) : Option (List String) :=
  forest.scopes[number]?.map PlainScope.namespaces

/-- The value of a name in the nearest scope that binds it. -/
def resolve? (forest : Forest) (name : String) (number : Nat) : Option Value := do
  let holder ← forest.holder? name number
  forest.bindingAt? holder name

/-- The scope above the scope of a number. -/
def parent? (forest : Forest) (number : Nat) : Option Nat := do
  let scope ← forest.scopes[number]?
  scope.parent

/-- Go on with the scope of a number, if there is one. -/
def on
    (forest : Forest)
    (number : Nat)
    (act : PlainScope → ScopeAnswer × Forest) : ScopeAnswer × Forest :=
  match forest.scopes[number]? with
  | some scope => act scope
  | none => (.absent, forest)

/-- The forest with a scope inside another one, which starts with the namespaces of that one. -/
def addChild (forest : Forest) (number : Nat) : ScopeAnswer × Forest :=
  match found : forest.scopes[number]? with
  | none => (.absent, forest)
  | some scope =>
      (.made forest.scopes.length,
        forest.add ⟨∅, some number, scope.namespaces, scope.distinct⟩ (by
          rintro parent ⟨⟩
          exact (List.getElem?_eq_some_iff.mp found).1))

/-- A definition fails exactly if the scope itself binds the name. -/
def define
    (forest : Forest)
    (number : Nat)
    (name : String)
    (value : Value)
    (scope : PlainScope) : ScopeAnswer × Forest :=
  if name ∈ scope.bindings then
    (.failed (.duplicateDefinition name), forest)
  else
    (.done, forest.change number (·.bind name value) (·.parent_bind name value))

/-- An assignment changes the nearest scope that binds the name, which must have a parent. -/
def assign
    (forest : Forest)
    (number : Nat)
    (name : String)
    (value : Value) : ScopeAnswer × Forest :=
  match forest.holder? name number with
  | none => (.failed (.undefinedVariable name), forest)
  | some holder =>
      match forest.parent? holder with
      | none => (.failed (.immutableScope name), forest)
      | some _ => (.done, forest.change holder (·.bind name value) (·.parent_bind name value))

def perform : ScopeOperation → Forest → ScopeAnswer × Forest
  | .newRoot, forest =>
      (.made forest.scopes.length, forest.add ⟨∅, none, [], List.nodup_nil⟩ nofun)
  | .newChild number, forest => forest.addChild number
  | .define number name value, forest => forest.on number (forest.define number name value)
  | .assign number name value, forest =>
      forest.on number fun _ => forest.assign number name value
  | .resolve number name, forest =>
      forest.on number fun _ => (.resolved (forest.resolve? name number), forest)
  | .isBound number name, forest =>
      forest.on number fun _ => (.bound (forest.resolve? name number).isSome, forest)
  | .useNamespace number name, forest =>
      forest.on number fun _ =>
        (.done, forest.change number (·.use name) (PlainScope.parent_use name))
  | .namespaces number, forest =>
      forest.on number fun scope => (.names scope.namespaces, forest)
  | .localNames number, forest =>
      forest.on number fun scope => (.names scope.bindings.keys.sort, forest)

end Forest

end SmallScheme
