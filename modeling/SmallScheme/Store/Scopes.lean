import SmallScheme.Store.Scope

namespace SmallScheme

/-!
# Operations on scopes

Scopes are numbered in the order in which they are made, and an operation names the scope that it is
carried out on by its number.
-/

/-- An operation on scopes. -/
inductive ScopeOperation
  | newRoot
  | newChild (number : Nat)
  | define (number : Nat) (name : String) (value : Value)
  | assign (number : Nat) (name : String) (value : Value)
  | resolve (number : Nat) (name : String)
  | isBound (number : Nat) (name : String)
  | useNamespace (number : Nat) (name : String)
  | namespaces (number : Nat)
  | localNames (number : Nat)

/-- What an operation on scopes answers. -/
inductive ScopeAnswer
  | made (number : Nat)
  | done
  | failed (fault : Fault)
  | resolved (value : Option Value)
  | bound (isBound : Bool)
  | names (names : List String)
  /-- No scope of this number has been made. -/
  | absent

/-- The answers to some operations, one after the other, and the state after them. -/
def performAll
    {State : Type}
    (perform : ScopeOperation → State → ScopeAnswer × State) :
    List ScopeOperation → State → List ScopeAnswer × State
  | [], state => ([], state)
  | operation :: rest, state =>
      let (answer, next) := perform operation state
      let (answers, last) := performAll perform rest next
      (answer :: answers, last)

/-- The scopes that have been made in a store, in order. -/
structure Scopes where
  store : Store
  made : List Scope

namespace Scopes

/-- Go on with the scope of a number, if there is one. -/
def on
    (scopes : Scopes)
    (number : Nat)
    (act : Scope → ScopeAnswer × Scopes) : ScopeAnswer × Scopes :=
  match scopes.made[number]? with
  | some scope => act scope
  | none => (.absent, scopes)

/-- The scopes with a new one, which a store has been extended by. -/
def add (scopes : Scopes) (new : Scope × Store) : ScopeAnswer × Scopes :=
  (.made scopes.made.length, ⟨new.2, scopes.made ++ [new.1]⟩)

/-- The scopes after an action on their store. -/
def act (scopes : Scopes) (action : StoreM Unit) : ScopeAnswer × Scopes :=
  match action scopes.store with
  | (.ok (), store) => (.done, ⟨store, scopes.made⟩)
  | (.error fault, store) => (.failed fault, ⟨store, scopes.made⟩)

def perform : ScopeOperation → Scopes → ScopeAnswer × Scopes
  | .newRoot, scopes => scopes.add scopes.store.newRoot
  | .newChild number, scopes =>
      scopes.on number fun scope => scopes.add (scopes.store.newChild scope)
  | .define number name value, scopes =>
      scopes.on number fun scope => scopes.act (Store.define scope name value)
  | .assign number name value, scopes =>
      scopes.on number fun scope => scopes.act (Store.assign scope name value)
  | .resolve number name, scopes =>
      scopes.on number fun scope => (.resolved (scopes.store.lookup? scope name), scopes)
  | .isBound number name, scopes =>
      scopes.on number fun scope => (.bound (scopes.store.isBound scope name), scopes)
  | .useNamespace number name, scopes =>
      scopes.on number fun scope => (.done, ⟨scopes.store.useNamespace scope name, scopes.made⟩)
  | .namespaces number, scopes =>
      scopes.on number fun scope => (.names (scopes.store.namespaces scope), scopes)
  | .localNames number, scopes =>
      scopes.on number fun scope => (.names (scopes.store.localNames scope), scopes)

/-! What can be seen of the scope of a number. -/

/-- The value that the scope itself binds to a name. -/
def bindingAt? (scopes : Scopes) (number : Nat) (name : String) : Option Value := do
  let scope ← scopes.made[number]?
  (scopes.store.frameAt scope.frame).find? name

def namespacesAt? (scopes : Scopes) (number : Nat) : Option (List String) :=
  scopes.made[number]?.map scopes.store.namespaces

/-- There is a scope of this number, and nothing is around it. -/
def isRootAt (scopes : Scopes) (number : Nat) : Bool :=
  scopes.made[number]?.any Scope.isRoot

end Scopes

end SmallScheme
