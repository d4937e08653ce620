import SmallScheme.Arity
import SmallScheme.Store.Scope
import SmallScheme.Store.View

namespace SmallScheme

/-!
# Parameters of procedures

A parameter form is one identifier, or a list of distinct identifiers that may end in one more.
Because the names are distinct, binding them in a fresh frame cannot clash.
-/

namespace Formals

/-- The name of one parameter, which must be new. -/
def nameOf
    (store : Store)
    (earlier : List String)
    (form : Value) : Except Fault String :=
  match form.identifier? with
  | none => .error (store.telling form fun text => .type (.formalName text))
  | some name =>
      if earlier.contains name then
        .error (.evaluation (.duplicateFormal name))
      else
        .ok name

/-- The names of parameters that come after earlier ones. -/
def namesOf
    (store : Store)
    (earlier : List String) : List Value → Except Fault (List String)
  | [] => .ok earlier
  | form :: rest => do
      let name ← nameOf store earlier form
      namesOf store (earlier ++ [name]) rest

/--
The parameters that a form describes.  The chain is followed over one pair more than there are, so
that a circular one comes to a name that it has shown before.
-/
def ofForm (store : Store) (form : Value) : Except Fault Formals :=
  match form.identifier? with
  | some name => .ok (.variadic name)
  | none => do
      let (items, ending) := store.chainWithin (store.pairs.size + 1) [] form
      let names ← namesOf store [] items
      match ending with
      | .nil => return .fixed names
      | rest => return .withRest names (← nameOf store names rest)

/-- The numbers of operands that a procedure with these parameters accepts. -/
def arity : Formals → Arity
  | .variadic _ => .any
  | .fixed names => .exactly names.length
  | .withRest names _ => .atLeast names.length

end Formals

namespace Store

/-- Bind names to values one after the other. -/
def defineAll (scope : Scope) : List (String × Value) → StoreM Unit
  | [] => return ()
  | (name, value) :: rest => do
      Store.define scope name value
      defineAll scope rest

/-- Bind a name to a fresh list. -/
def defineList (scope : Scope) (name : String) (items : List Value) : StoreM Unit := do
  let list ← StoreM.change (Store.newList items)
  Store.define scope name list

/-- How an arity fault of a named procedure describes its call. -/
def callText (procedure : Procedure) : Option String :=
  procedure.name.map fun name => "(" ++ name ++ " ...)"

/-- Bind the parameters of a procedure to operands. -/
def bindFormals
    (procedure : Procedure)
    (scope : Scope)
    (operands : List Value) : StoreM Unit :=
  match procedure.formals with
  | .variadic name => Store.defineList scope name operands
  | .fixed names =>
      if operands.length = names.length then
        Store.defineAll scope (names.zip operands)
      else
        throw (.arity names.length operands.length (callText procedure))
  | .withRest names rest =>
      if operands.length < names.length then
        throw (.arity names.length operands.length (callText procedure))
      else do
        Store.defineAll scope (names.zip operands)
        Store.defineList scope rest (operands.drop names.length)

end Store

end SmallScheme
