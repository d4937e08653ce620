import SmallScheme.Transformer.Pattern
import SmallScheme.Transformer.Template

namespace SmallScheme

/-!
# Transformers

A transformer rewrites the operands of a use by the first of its rules whose pattern matches them.
The first position of a pattern, where the keyword stands, is not looked at.
-/

namespace Transformer

/-- The names in a list of literals. -/
def literalNames : List Value → StoreM (List String)
  | [] => return []
  | literal :: rest =>
      match literal.identifier? with
      | none => StoreM.failTelling literal fun text => .type (.literalName text)
      | some name => do
          let names ← literalNames rest
          return name :: names

/-- The rule that a list of a pattern and a template describes. -/
def ruleOf (form : Value) : StoreM Rule := do
  let parts ← Store.listItems form
  match parts with
  | [pattern, template] =>
      match ← StoreM.view fun store => store.pair? pattern with
      | some pair => return ⟨pair.tail, template⟩
      | none => malformed
  | _ => malformed
where
  /-- The form is no rule. -/
  malformed : StoreM Rule :=
    StoreM.failTelling form fun text => .evaluation (.malformed "syntax rule" text)

/-- The transformer that a list of literals and rules describes. -/
def ofOperands (name : String) (home : Scope) (operands : List Value) : StoreM Value :=
  match operands with
  | [] => throw (.evaluation .missingLiterals)
  | literals :: rules => do
      let literals ← literalNames (← Store.listItems literals)
      let rules ← rules.mapM ruleOf
      StoreM.change (Store.newTransformer ⟨name, literals, rules, home⟩)

/-- Fill the template of a rule whose pattern has matched; `isHeld` tells whether home is there. -/
def fillRule
    (transformer : Transformer)
    (isHeld : Bool)
    (rule : Rule)
    (captures : Captures) : StoreM Value := do
  let captures ← StoreM.change captures.settle
  let template ← StoreM.view fun store => store.form rule.template
  let setting : TemplateSetting :=
    ⟨transformer.literals, if isHeld then some transformer.home else none, template.binders []⟩
  template.fill setting captures

/-- Rewrite operands by the first of the rules that matches. -/
def expandBy
    (transformer : Transformer)
    (isHeld : Bool)
    (operands : Value) : List Rule → StoreM Value
  | [] =>
      StoreM.failTelling operands fun text => .evaluation (.noRule transformer.name text)
  | rule :: rest => do
      let captures? ← StoreM.view fun store =>
        (store.form rule.pattern).matchForm store transformer.literals operands []
      match captures? with
      | some captures => fillRule transformer isHeld rule captures
      | none => expandBy transformer isHeld operands rest

end Transformer

namespace Store

def transformerAt (store : Store) (address : Nat) : Transformer :=
  store.transformers[address]?.getD default

/-- Rewrite the operands of a use of the transformer at an address. -/
def expandUse (isHeld : Bool) (address : Nat) (operands : Value) : StoreM Value := do
  let transformer ← StoreM.view fun store => store.transformerAt address
  transformer.expandBy isHeld operands transformer.rules

end Store

end SmallScheme
