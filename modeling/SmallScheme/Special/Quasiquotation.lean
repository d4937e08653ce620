import SmallScheme.Script.Basic
import SmallScheme.Store.Form

namespace SmallScheme

/-!
# Quasiquotation

A quasiquoted template is quoted, except that its unquoted parts are evaluated.  Only parts at
nesting level one are: each quasiquotation inside the template raises the level, each unquotation
lowers it.  Abbreviations and their long forms mean the same.
-/

namespace Store

/-- The mark of a form, be it abbreviated or written as a list of a keyword and one form. -/
def mark? (store : Store) (form : Value) : Option (Mark × Value) :=
  match form with
  | .marked mark address => some (mark, store.markedAt address)
  | .pair address =>
      match store.pairs[address]? with
      | none => none
      | some pair =>
          let marks := [Mark.quote, .quasiquote, .unquote, .unquoteSplicing]
          match marks.find? fun mark => pair.head.isNamed mark.keyword, store.pair? pair.tail with
          | some mark, some ⟨inner, .nil⟩ => some (mark, inner)
          | _, _ => none
  | _ => none

/-- The next pair of a list that is walked over; a marked rest is not one. -/
def listPair? (store : Store) (rest : Value) : Option (Nat × Pair) :=
  match rest with
  | .pair address =>
      match store.mark? rest, store.pairs[address]? with
      | none, some pair => some (address, pair)
      | _, _ => none
  | _ => none

end Store

namespace Quasiquotation

open Script

/-- The list of a keyword and a datum. -/
def wrap (mark : Mark) (datum : Value) : Script Value :=
  perform (StoreM.change (mark.wrap datum))

/-- The items that are spliced in for an unquoted part. -/
def splice (value : Value) : Script (List Value) := do
  match ← view fun store => store.listItems? value with
  | some items => return items
  | none => failWith fun store => .evaluation (.spliceList (store.shape value))

/-- What the items of a vector expand to in turn, put after the reversed list `sofar`. -/
def collect
    {Answer : Type}
    (expandOne : Value → (List Value → Script Answer) → Script Answer)
    (next : List Value → Script Answer)
    (sofar : List Value) : List Value → Script Answer
  | [] => next sofar.reverse
  | item :: rest =>
      expandOne item fun items => collect expandOne next (items.reverse ++ sofar) rest

/-!
Expansion recurses into the parts of a template.  Each function below is given what is to be done
with its result, so that every request of a deep template is followed at once by the next one.
-/

mutual

/-- Expand a template at a nesting level.  The fuel bounds the recursion. -/
def expand
    {Answer : Type}
    (scope : Scope) : Nat → Nat → Value → (Value → Script Answer) → Script Answer
  | 0, _, template, next => next template
  | fuel + 1, level, template, next => do
      match ← view fun store => store.mark? template with
      | some (.unquote, inner) =>
          if level = 1 then do
            next (← evaluate scope inner)
          else
            expand scope fuel (level - 1) inner fun inner => do next (← wrap .unquote inner)
      | some (.unquoteSplicing, inner) =>
          if level = 1 then
            failTelling template fun text => .evaluation (.splicePlace text)
          else
            expand scope fuel (level - 1) inner fun inner => do
              next (← wrap .unquoteSplicing inner)
      | some (.quasiquote, inner) =>
          expand scope fuel (level + 1) inner fun inner => do next (← wrap .quasiquote inner)
      | some (.quote, inner) =>
          expand scope fuel level inner fun inner => do next (← wrap .quote inner)
      | none =>
          match template with
          | .pair _ =>
              expandList scope fuel level [] template fun (items, tail) => do
                next (← perform (StoreM.change (Store.newListWithTail items tail)))
          | .vector address => do
              let items ← view fun store => (store.vectorAt address).toList
              collect (expandItem scope fuel level)
                (fun expanded => do
                  next (← perform (StoreM.change (Store.newVector expanded.toArray))))
                [] items
          | other => do next (← perform (StoreM.change (Store.quoteValue other)))

/-- Expand the items along a list, put after the reversed list `sofar`, and then its tail. -/
def expandList
    {Answer : Type}
    (scope : Scope) :
    Nat → Nat → List Value → Value → (List Value × Value → Script Answer) → Script Answer
  | 0, _, sofar, rest, next => next (sofar.reverse, rest)
  | fuel + 1, level, sofar, rest, next => do
      match ← view fun store => store.listPair? rest with
      | some (address, pair) =>
          expandItem scope fuel level pair.head fun items => do
            let rest ← view fun store => (store.pairAt address).tail
            expandList scope fuel level (items.reverse ++ sofar) rest next
      | none => expand scope fuel level rest fun tail => next (sofar.reverse, tail)

/-- What an item of a list or vector expands to: one item, or those spliced in for it. -/
def expandItem
    {Answer : Type}
    (scope : Scope) : Nat → Nat → Value → (List Value → Script Answer) → Script Answer
  | 0, _, item, next => next [item]
  | fuel + 1, level, item, next => do
      match ← view fun store => store.mark? item with
      | some (.unquoteSplicing, inner) =>
          if level = 1 then do
            next (← splice (← evaluate scope inner))
          else
            expand scope fuel level item fun expanded => next [expanded]
      | _ => expand scope fuel level item fun expanded => next [expanded]

end

/--
The value of a quasiquoted template.  Three times the number of objects with parts is enough fuel
for a template without cycles, unless its unquoted parts lengthen it.
-/
def value (scope : Scope) (template : Value) : Script Value := do
  let extent ← view Store.extent
  expand scope (3 * extent + 3 + Fuel.ample) 1 template .done

end Quasiquotation

end SmallScheme
