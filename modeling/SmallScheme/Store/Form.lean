import SmallScheme.Store.View

namespace SmallScheme

/-!
# Forms

A form is a value unfolded into a tree whose nodes remember the values they show.  Code that walks
over quoted data, patterns and templates works on forms; parts that it leaves as they are keep
their identity.
-/

/-- A value unfolded into a tree. -/
inductive Form
  | atom (value : Value)
  | identifier (name : String) (value : Value)
  | list (items : List Form) (tail : Form) (value : Value)
  | vector (items : List Form) (value : Value)
  | marked (mark : Mark) (inner : Form) (value : Value)
  deriving Inhabited

namespace Form

/-- The value that a form shows. -/
def value : Form → Value
  | .atom value => value
  | .identifier _ value => value
  | .list _ _ value => value
  | .vector _ value => value
  | .marked _ _ value => value

/-- The name of an identifier. -/
def identifier? : Form → Option String
  | .identifier name _ => some name
  | _ => none

/-- The form is an identifier of this name. -/
def isNamed (form : Form) (name : String) : Bool :=
  form.identifier? = some name

def isNil : Form → Bool
  | .atom .nil => true
  | _ => false

end Form

namespace Store

/-- Unfold a value to a depth of nesting. -/
def formWithin (store : Store) : Nat → Value → Form
  | 0, value => .atom value
  | depth + 1, value =>
      match value with
      | .symbol name => .identifier name value
      | .scoped name _ => .identifier name value
      | .pair _ =>
          let (heads, ending) := store.chain value
          .list (heads.map (formWithin store depth)) (formWithin store depth ending) value
      | .vector address =>
          .vector ((store.vectorAt address).toList.map (formWithin store depth)) value
      | .marked mark address => .marked mark (formWithin store depth (store.markedAt address)) value
      | _ => .atom value

def form (store : Store) (value : Value) : Form :=
  store.formWithin (store.extent + 1) value

end Store

/-!
## Quotation

Quoting gives the structure of a form as data: an abbreviation becomes the list of its keyword and
the form under it, and an identifier that a macro put there becomes a plain symbol.  A form without
either is its own quotation, the very same object.
-/

/-- The two-element list of a keyword and a datum. -/
def Mark.wrap (mark : Mark) (datum : Value) (store : Store) : Value × Store :=
  store.newList [.symbol mark.keyword, datum]

namespace Form

/-- The identifier is one that a macro put there. -/
def isScoped : Value → Bool
  | .scoped _ _ => true
  | _ => false

mutual

/-- Nothing in the form has to be rewritten by quoting. -/
def isPlain : Form → Bool
  | .atom _ => true
  | .identifier _ value => !isScoped value
  | .list items tail _ => allPlain items && isPlain tail
  | .vector items _ => allPlain items
  | .marked _ _ _ => false

def allPlain : List Form → Bool
  | [] => true
  | form :: rest => isPlain form && allPlain rest

end

mutual

/-- The quotation of a form. -/
def quoted : Form → Store → Value × Store
  | .atom value, store => (value, store)
  | .identifier name _, store => (.symbol name, store)
  | .list items tail value, store =>
      if isPlain (.list items tail value) then
        (value, store)
      else
        let (items, store) := allQuoted items store
        let (tail, store) := quoted tail store
        store.newListWithTail items tail
  | .vector items value, store =>
      if isPlain (.vector items value) then
        (value, store)
      else
        let (items, store) := allQuoted items store
        store.newVector items.toArray
  | .marked mark inner _, store =>
      let (inner, store) := quoted inner store
      mark.wrap inner store

def allQuoted : List Form → Store → List Value × Store
  | [], store => ([], store)
  | form :: rest, store =>
      let (value, store) := quoted form store
      let (values, store) := allQuoted rest store
      (value :: values, store)

end

end Form

namespace Store

def quoteValue (value : Value) (store : Store) : Value × Store :=
  (store.form value).quoted store

end Store

end SmallScheme
