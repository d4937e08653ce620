import SmallScheme.Store.View

namespace SmallScheme

/-!
# Showing faults

The text of a fault.  A raised value and the irritants of a condition are written as they are when
the fault is shown.
-/

/-- The text of a refused number of operands. -/
def arityText (expected given : Nat) (expression : Option String) : String :=
  match expression with
  | some expression =>
      "ArityError: expression " ++ expression ++ ": expected " ++ Nat.repr expected ++
        " arguments, got " ++ Nat.repr given
  | none =>
      "ArityError: function expected " ++ Nat.repr expected ++ " arguments but got " ++
        Nat.repr given

/-- The datum that shows a value, for one that has an end. -/
def Store.datum (store : Store) (value : Value) : Datum :=
  (store.datum? value).getD (.handle value.kindName "")

/-- The text of a value, for one that has an end. -/
def Store.written (store : Store) (value : Value) : String :=
  (store.written? value).getD ""

/-- The text of a condition. -/
def Store.conditionText (store : Store) (address : Nat) : String :=
  let condition := store.conditionAt address
  let irritants := condition.irritants.map fun irritant => " " ++ store.written irritant
  "Error: " ++ condition.message ++ String.join irritants

namespace Fault

def message (store : Store) : Fault → String
  | .duplicateDefinition name =>
      "Duplicate definition: " ++ name ++ " is already defined in this scope"
  | .unboundVariable name => "Unbound variable: " ++ name
  | .undefinedVariable name => "Undefined variable for set!: " ++ name
  | .immutableScope name =>
      "Immutable scope: " ++ name ++ " is bound in the root scope and cannot be set!"
  | .arity expected given expression => arityText expected given expression
  | .type cause => "Type error: " ++ cause.message
  | .evaluation cause => "EvaluationError: " ++ cause.message
  | .raised value => "Uncaught raise: " ++ store.written value
  | .structured condition => store.conditionText condition
  | .continuationExpired => "Continuation invoked outside its dynamic extent"
  | .interop detail => "Interop error: " ++ detail

/-- What a handler receives, when the fault is one that handlers are offered. -/
def handled? : Fault → Option Value
  | .raised value => some value
  | .structured condition => some (.condition condition)
  | _ => none

end Fault

end SmallScheme
