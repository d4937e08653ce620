import SmallScheme.Script.Basic
import SmallScheme.Transformer.Basic

namespace SmallScheme.Special

/-!
# Defining and using transformers
-/

open Script

/-- The operands of a form whose keyword makes a transformer. -/
def transformerOperands? (store : Store) (form : Value) : Option (List Value) :=
  match store.pair? form with
  | some pair => if pair.head.isNamed "syntax-rules" then store.listItems? pair.tail else none
  | none => none

/-- Bind a name in the present scope to a transformer. -/
def transformerDefinition (scope : Scope) (operands : List Value) : Script Step :=
  match operands with
  | [target, form] => do
      let name ← nameFor "define-syntax" target
      let transformer ←
        match ← view fun store => transformerOperands? store form with
        | some rules => perform (Transformer.ofOperands name scope rules)
        | none => do
            match ← evaluate scope form with
            | .transformer address => pure (.transformer address)
            | other => failTelling other fun text => .type (.needsTransformer text)
      perform (Store.define scope name transformer)
      answer .unspecified
  | _ => refuseCount 2 operands.length

/-- Make a transformer without a name of its own. -/
def transformer (scope : Scope) (operands : List Value) : Script Step := do
  answer (← perform (Transformer.ofOperands "anonymous" scope operands))

/-- The transformer that the head of a form names in a scope, and the operands of the form. -/
def transformerUse? (store : Store) (scope : Scope) (form : Value) : Option (Nat × Value) := do
  let pair ← store.pair? form
  let name ← pair.head.identifier?
  match store.lookup? scope name with
  | some (.transformer address) => some (address, pair.tail)
  | _ => none

/--
Rewrite operands by a transformer.  What its template leaves free means what it means at home, if
home is still there.
-/
def rewrite (scope : Scope) (address : Nat) (operands : Value) : Script Value := do
  let home ← view fun store => (store.transformerAt address).home
  let isHeld ← reaches scope home
  perform (Store.expandUse isHeld address operands)

/-- Expand a form once if its head names a transformer, and quote it otherwise. -/
def expandOnce (scope : Scope) (form : Value) : Script Step := do
  match ← view fun store => transformerUse? store scope form with
  | some (address, operands) => do
      let expansion ← rewrite scope address operands
      return .expand scope expansion
  | none => answerFresh (Store.quoteValue form)

/-- Expand the value of a form until its head names no transformer. -/
def expansion (scope : Scope) (operands : List Value) : Script Step :=
  match operands with
  | [form] => do
      let form ← evaluate scope form
      defer (.expand scope form)
  | _ => refuseCount 1 operands.length

end SmallScheme.Special
