import SmallScheme.Evaluation.SpecialForm
import SmallScheme.Primitive.Basic
import SmallScheme.Script.Basic

namespace SmallScheme

/-!
# The meaning of names

A name means its nearest binding.  A name without a binding may be one of two keywords; otherwise
the host is asked.
-/

namespace Store

/-- The value of a name that no scope binds. -/
def freeNameValue
    (host : Host)
    (scope : Scope)
    (operandCount : Option Nat)
    (name : String) : StoreM Value :=
  if name = "null" then
    return .unspecified
  else if name = "nil" then
    return .nil
  else do
    let namespaces ← StoreM.view fun store => store.namespaces scope
    match ← host.resolve name operandCount namespaces with
    | some value => return value
    | none => throw (.unboundVariable name)

end Store

/-- The member that an operator invokes: a name that starts with a dot, apart from the ellipsis. -/
def memberName? (name : String) : Option String :=
  if name.front = '.' then
    match name.toList with
    | _ :: first :: rest => if name = "..." then none else some (String.ofList (first :: rest))
    | _ => none
  else
    none

namespace Script

/-- The value of a name in a scope. -/
def nameValue (host : Host) (scope : Scope) (name : String) : Script Value := do
  match ← view fun store => store.lookup? scope name with
  | some value => return value
  | none => perform (Store.freeNameValue host scope none name)

/--
The value of an identifier put there by a macro: its own scope, if it is still there, comes before
the present one.
-/
def scopedNameValue (host : Host) (scope home : Scope) (name : String) : Script Value := do
  let isHeld ← reaches scope home
  match ← view fun store => if isHeld then store.lookup? home name else none with
  | some value => return value
  | none => nameValue host scope name

end Script

/-!
## Applications

A list is evaluated by what its head means.  A special form receives the operands as they are
written, a transformer rewrites them, and everything else is applied to their values.
-/

namespace Application

open Script

/--
The values of the operands from a pair onwards, put after the reversed list `sofar`.  The rest of
the list is fetched before the operand is evaluated, so an operand may change the list further on.
-/
def operandsFrom
    (scope : Scope) : Nat → List Value → Value → Script (List Value)
  | 0, sofar, _ => return sofar.reverse
  | steps + 1, sofar, rest =>
      match rest with
      | .pair address => do
          let pair ← view fun store => store.pairAt address
          let value ← evaluate scope pair.head
          operandsFrom scope steps (value :: sofar) pair.tail
      | _ => return sofar.reverse

/--
The values of operands, which must be a proper list.  As many steps as there are pairs are enough
unless operands lengthen the list.
-/
def operandValues (scope : Scope) (operands : Value) : Script (List Value) := do
  match ← view fun store => (store.isList operands, store.pairs.size) with
  | (true, size) => operandsFrom scope (size + 1 + Fuel.ample) [] operands
  | (false, _) => failWith fun store => .evaluation (.operandList (store.shape operands))

/-- Apply a procedure in a fresh scope: all but the last form of its body are evaluated there. -/
def enter (procedure : Procedure) (operands : List Value) : Script Step := do
  let scope ← perform (StoreM.change (Store.newChild procedure.scope))
  perform (Store.bindFormals procedure scope operands)
  body scope procedure.body

/-- Apply a value to operands. -/
def apply (host : Host) (callee : Value) (operands : List Value) : Script Step :=
  match callee with
  | .procedure address => do
      let procedure ← view fun store => store.procedures[address]?.getD default
      enter procedure operands
  | .primitive operation => do answer (← perform (operation.apply host operands))
  | .escape identity => Special.escape identity operands
  | .parameter address =>
      if operands.isEmpty then do
        let parameter ← view fun store => store.parameters[address]?.getD default
        answer parameter.value
      else
        refuseCount 0 operands.length
  | .foreign address => do
      let object ← view fun store => store.foreigns[address]?.getD default
      answer (← perform (host.call object operands))
  | other => failTelling other fun text => .type (.notApplicable text)

/-- Let an arity fault that does not tell where it arose tell that it arose in a form. -/
def locate (form : Value) : Except Unwind Step → Script Step
  | .ok step => return step
  | .error (.fault cause) =>
      if cause.lacksExpression then
        failTelling form cause.inExpression
      else
        fail cause
  | .error reason => .unwind reason

/-- Apply a special form to its operands as they are written. -/
def special
    (host : Host)
    (scope : Scope)
    (form : Value)
    (keyword : SpecialForm)
    (operands : Value) : Script Step := do
  let operands ← perform (Store.listItems operands)
  match keyword.arity.refuses? operands.length with
  | some bound => failTelling form fun text => .arity bound operands.length (some text)
  | none => keyword.script host scope operands

/-- Apply what the head of a form means to its operands. -/
def dispatch
    (host : Host)
    (scope : Scope)
    (form : Value)
    (callee : Value)
    (operands : Value) : Script Step :=
  match callee with
  | .special keyword => special host scope form keyword operands
  | .transformer address => do
      let expansion ← Special.rewrite scope address operands
      tail scope expansion
  | _ => do
      let values ← operandValues scope operands
      let result ← attempt (apply host callee values)
      locate form result

/-- Invoke a member on the values of the operands. -/
def invoke
    (host : Host)
    (scope : Scope)
    (member : String)
    (operands : Value) : Script Step := do
  let values ← operandValues scope operands
  answer (← perform (host.invoke member values))

/-- What a form has at its head. -/
inductive Head
  /-- The name of a member, without its dot. -/
  | member (name : String)
  /-- A name with a binding. -/
  | bound (callee : Value)
  /-- A name without a binding. -/
  | free (name : String)
  /-- A form that has to be evaluated. -/
  | operator (form : Value)

/-- What a value in operator position is. -/
def headOf (store : Store) (scope : Scope) : Value → Head
  | .symbol name =>
      match memberName? name with
      | some member => .member member
      | none =>
          match store.lookup? scope name with
          | some callee => .bound callee
          | none => .free name
  | form => .operator form

/-- The value of a name without a binding at the head of a form. -/
def freeCallee
    (host : Host)
    (scope : Scope)
    (name : String)
    (operands : Value) : Script Value :=
  perform do
    let count ← StoreM.view fun store => store.listLength? operands
    Store.freeNameValue host scope count name

/-- Evaluate a form that is the pair at an address. -/
def script
    (host : Host)
    (scope : Scope)
    (address : Nat) : Script Step := do
  let form := Value.pair address
  let (head, operands) ← view fun store =>
    let pair := store.pairAt address
    (headOf store scope pair.head, pair.tail)
  match head with
  | .member name => invoke host scope name operands
  | .bound callee => dispatch host scope form callee operands
  | .free name => do
      let callee ← freeCallee host scope name operands
      dispatch host scope form callee operands
  | .operator operator => do
      let callee ← evaluate scope operator
      dispatch host scope form callee operands

end Application

end SmallScheme
