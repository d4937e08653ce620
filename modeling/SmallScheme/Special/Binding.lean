import SmallScheme.Script.Basic

namespace SmallScheme.Special

/-!
# Definitions, assignments and blocks
-/

open Script

/-- Make a procedure in a scope. -/
def makeProcedure
    (scope : Scope)
    (name : Option String)
    (formals : Formals)
    (forms : List Value) : Script Value :=
  perform (StoreM.change (Store.newProcedure ⟨formals, forms, scope, name⟩))

/-- The parameters that a form describes. -/
def formalsOf (form : Value) : Script Formals :=
  perform fun store => (Formals.ofForm store form, store)

/-- Give a procedure its first name; other values have none. -/
def nameValue (name : String) (value : Value) : StoreM Unit :=
  match value with
  | .procedure address => StoreM.change fun store => ((), store.nameProcedure address name)
  | _ => return ()

/--
Bind a name in the present scope to a value or, when the name comes in a list with parameters, to a
procedure.
-/
def definition (scope : Scope) (operands : List Value) : Script Step :=
  match operands with
  | .pair address :: forms => do
      let head ← view fun store => store.pairAt address
      let name ← nameFor "define" head.head
      let formals ← formalsOf head.tail
      let procedure ← makeProcedure scope (some name) formals forms
      perform (Store.define scope name procedure)
      answer .unspecified
  | [target] => do
      let name ← nameFor "define" target
      perform (Store.define scope name .unspecified)
      answer .unspecified
  | [target, form] => do
      let name ← nameFor "define" target
      let value ← evaluate scope form
      perform (nameValue name value)
      perform (Store.define scope name value)
      answer .unspecified
  | _ => refuseCount 2 operands.length

/-- Assign the nearest binding of a name. -/
def assignment (scope : Scope) (operands : List Value) : Script Step :=
  match operands with
  | [target, form] => do
      let name ← nameFor "set!" target
      let value ← evaluate scope form
      perform (Store.assign scope name value)
      answer .unspecified
  | _ => refuseCount 2 operands.length

/-- Make a procedure without a name. -/
def procedure (scope : Scope) (operands : List Value) : Script Step :=
  match operands with
  | formals :: first :: rest => do
      let formals ← formalsOf formals
      answer (← makeProcedure scope none formals (first :: rest))
  | _ => refuseCount 2 operands.length

/-- One binding of a block: a name, and a form for its value if there is one. -/
structure BlockBinding where
  name : String
  form : Option Value

/-- The binding an entry describes: a name, a list of a name, or a list of a name and a form. -/
def bindingOf (entry : Value) : Script BlockBinding :=
  match entry with
  | .pair _ => do
      match ← perform (Store.listItems entry) with
      | [name] => return ⟨← nameFor "let binding" name, none⟩
      | [name, form] => return ⟨← nameFor "let binding" name, some form⟩
      | _ => failTelling entry fun text => .evaluation (.malformed "let binding" text)
  | _ => return ⟨← nameFor "let binding" entry, none⟩

/-- The bindings that entries describe, put after the reversed list `sofar`. -/
def bindingsFrom (sofar : List BlockBinding) : List Value → Script (List BlockBinding)
  | [] => return sofar.reverse
  | entry :: rest => do
      let binding ← bindingOf entry
      bindingsFrom (binding :: sofar) rest

/-- The bindings that a form describes. -/
def bindingsOf (form : Value) : Script (List BlockBinding) := do
  let entries ← perform (Store.listItems form)
  bindingsFrom [] entries

/-- The value of a binding in a scope. -/
def bindingValue (scope : Scope) (binding : BlockBinding) : Script Value :=
  match binding.form with
  | some form => evaluate scope form
  | none => return .unspecified

/-- Bind names one after the other; each value may use the names before it. -/
def defineBindings (block : Scope) : List BlockBinding → Script Unit
  | [] => return ()
  | binding :: rest => do
      let value ← bindingValue block binding
      perform (Store.define block binding.name value)
      defineBindings block rest

/-- A block with bindings of its own. -/
def block (scope : Scope) (operands : List Value) : Script Step :=
  match operands with
  | [] => refuseCount 1 0
  | bindings :: forms => do
      let inner ← perform (StoreM.change (Store.newChild scope))
      let bindings ← bindingsOf bindings
      defineBindings inner bindings
      body inner forms

/-- The values of bindings in a scope, put after the reversed list `sofar`. -/
def bindingValues (scope : Scope) (sofar : List Value) :
    List BlockBinding → Script (List Value)
  | [] => return sofar.reverse
  | binding :: rest => do
      let value ← bindingValue scope binding
      bindingValues scope (value :: sofar) rest

/-- A block that is a procedure of the given name, called at once. -/
def namedBlock
    (scope : Scope)
    (name : String)
    (bindings : Value)
    (forms : List Value) : Script Step := do
  let bindings ← bindingsOf bindings
  let values ← bindingValues scope [] bindings
  let names ← perform fun store =>
    (Formals.namesOf store [] (bindings.map fun binding => .symbol binding.name), store)
  let inner ← perform (StoreM.change (Store.newChild scope))
  let loop ← makeProcedure inner (some name) (.fixed names) forms
  perform (Store.define inner name loop)
  defer (.apply loop values)

/-- A block, or a named block when a name comes before the bindings. -/
def letBlock (scope : Scope) (operands : List Value) : Script Step :=
  match operands with
  | first :: bindings :: forms =>
      match first.identifier? with
      | some name => namedBlock scope name bindings forms
      | none => block scope operands
  | _ => block scope operands

end SmallScheme.Special
