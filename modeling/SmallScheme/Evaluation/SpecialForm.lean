import SmallScheme.Script.Basic
import SmallScheme.Special.Binding
import SmallScheme.Special.Control
import SmallScheme.Special.Dynamic
import SmallScheme.Special.Quasiquotation
import SmallScheme.Special.Transforming

namespace SmallScheme

/-!
# What the special forms do
-/

namespace Special

open Script

def quotation (operands : List Value) : Script Step :=
  match operands with
  | [datum] => answerFresh (Store.quoteValue datum)
  | _ => refuseCount 1 operands.length

/-- The value of a quasiquoted template. -/
def quasiquotation (scope : Scope) (operands : List Value) : Script Step :=
  match operands with
  | [template] => do answer (← Quasiquotation.value scope template)
  | _ => refuseCount 1 operands.length

end Special

/-- What a special form does with its operands in a scope. -/
def SpecialForm.script
    (host : Host)
    (form : SpecialForm)
    (scope : Scope)
    (operands : List Value) : Script Step :=
  match form with
  | .quotation => Special.quotation operands
  | .quasiquotation => Special.quasiquotation scope operands
  | .conditional => Special.conditional scope operands
  | .sequence => Script.body scope operands
  | .definition => Special.definition scope operands
  | .assignment => Special.assignment scope operands
  | .procedure => Special.procedure scope operands
  | .letBlock => Special.letBlock scope operands
  | .letStarBlock => Special.block scope operands
  | .letrecBlock => Special.block scope operands
  | .letrecStarBlock => Special.block scope operands
  | .clauses => Special.clauses scope operands
  | .caseClauses => Special.caseClauses scope operands
  | .conjunction => Special.conjunction scope operands
  | .disjunction => Special.disjunction scope operands
  | .application => Special.application scope operands
  | .mapping => Special.mapping scope operands
  | .iteration => Special.iteration scope operands
  | .evaluation => Special.evaluation scope operands
  | .parameter => Special.parameter scope operands
  | .rebinding => Special.rebinding scope operands
  | .namespaceUse => Special.namespaceUse scope operands
  | .transformerDefinition => Special.transformerDefinition scope operands
  | .transformer => Special.transformer scope operands
  | .expansion => Special.expansion scope operands
  | .escapeShort => Special.escaping scope operands
  | .escapeLong => Special.escaping scope operands
  | .escapeOnly => Special.escaping scope operands
  | .wind => Special.wind scope operands
  | .continuableRaise => Special.continuableRaise scope operands
  | .handling => Special.handling scope operands
  | .foreign name _ => host.form name scope operands

end SmallScheme
