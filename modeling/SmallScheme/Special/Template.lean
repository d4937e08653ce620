import SmallScheme.Special.Quasiquotation

namespace SmallScheme

/-!
# The reference for quasiquotation

A template is read once, as a tree in which every part that is unquoted at level one is a leaf.
What the template stands for follows the tree: its leaves are evaluated from left to right, and
around their values the rest of the template is built.
-/

/-- A value that has no parts and is no identifier. -/
def Value.StandsForItself : Value → Prop
  | .symbol _ => False
  | .scoped _ _ => False
  | .pair _ => False
  | .vector _ => False
  | .marked _ _ => False
  | _ => True

namespace Quasiquotation

open Script

/-- A template as a tree.  Every node tells the value that it is read from. -/
inductive Template
  | constant (value : Value)
  | identifier (name : String) (value : Value)
  /-- A part that is unquoted at level one, and the form that it unquotes. -/
  | unquoted (form value : Value)
  /-- The same where the items of a list are to be spliced in. -/
  | spliced (form value : Value)
  | marked (mark : Mark) (inner : Template) (value : Value)
  | pair (head tail : Template) (value : Value)
  | vector (items : List Template) (value : Value)

namespace Template

def value : Template → Value
  | .constant value => value
  | .identifier _ value => value
  | .unquoted _ value => value
  | .spliced _ value => value
  | .marked _ _ value => value
  | .pair _ _ value => value
  | .vector _ value => value

/-- What the item of a list or vector stands for; all but spliced ones stand for one value. -/
def itemMeaning (scope : Scope) (meaning : Script Value) : Template → Script (List Value)
  | .spliced form _ => do splice (← evaluate scope form)
  | _ => do return [← meaning]

mutual

/-- What a template stands for. -/
def meaning (scope : Scope) : Template → Script Value
  | .constant value => return value
  | .identifier name _ => return .symbol name
  | .unquoted form _ => evaluate scope form
  | .spliced _ value => failTelling value fun text => .evaluation (.splicePlace text)
  | .marked mark inner _ => do wrap mark (← meaning scope inner)
  | .pair head tail _ => do
      let items ← itemMeaning scope (meaning scope head) head
      let tail ← meaning scope tail
      perform (StoreM.change (Store.newListWithTail items tail))
  | .vector items _ => do
      let items ← meaningOfItems scope items
      perform (StoreM.change (Store.newVector items.toArray))

def meaningOfItems (scope : Scope) : List Template → Script (List Value)
  | [] => return []
  | item :: rest => do
      let first ← itemMeaning scope (meaning scope item) item
      let others ← meaningOfItems scope rest
      return first ++ others

end

end Template

end Quasiquotation

/-- Unquoting goes one level up. -/
def Mark.isUnquoting : Mark → Bool
  | .unquote => true
  | .unquoteSplicing => true
  | _ => false

/-- The level of what is under a mark. -/
def Mark.levelUnder : Mark → Nat → Nat
  | .quote, level => level
  | .quasiquote, level => level + 1
  | .unquote, level => level - 1
  | .unquoteSplicing, level => level - 1

namespace Store

open Quasiquotation (Template)

/-- The value is a marked form, abbreviated or spelled as a list of a keyword and one form. -/
inductive HasMark (store : Store) : Value → Mark → Value → Prop
  | abbreviated {mark : Mark} {address : Nat} {inner : Value} :
      store.marked[address]? = some inner → HasMark store (.marked mark address) mark inner
  | spelled {mark : Mark} {address rest : Nat} {head inner : Value} :
      store.pairs[address]? = some ⟨head, .pair rest⟩ →
      head.isNamed mark.keyword →
      store.pairs[rest]? = some ⟨inner, .nil⟩ →
      HasMark store (.pair address) mark inner

mutual

/-- At the level the value of the template is read as the template. -/
def Reads (store : Store) : Nat → Template → Prop
  | _, .constant value => value.StandsForItself
  | _, .identifier name value => value.identifier? = some name
  | level, .unquoted form value => level = 1 ∧ store.HasMark value .unquote form
  | level, .spliced form value => level = 1 ∧ store.HasMark value .unquoteSplicing form
  | level, .marked mark inner value =>
      (mark.isUnquoting → level ≠ 1) ∧ store.HasMark value mark inner.value ∧
        Reads store (mark.levelUnder level) inner
  | level, .pair head tail value =>
      (∀ mark inner, ¬store.HasMark value mark inner) ∧
        (∃ address,
          value = .pair address ∧ store.pairs[address]? = some ⟨head.value, tail.value⟩) ∧
        Reads store level head ∧ Reads store level tail
  | level, .vector items value =>
      ∃ address,
        value = .vector address ∧
          store.vectors[address]? = some (items.map Template.value).toArray ∧
          ReadAll store level items

def ReadAll (store : Store) : Nat → List Template → Prop
  | _, [] => True
  | level, item :: rest => Reads store level item ∧ ReadAll store level rest

end

end Store

end SmallScheme
