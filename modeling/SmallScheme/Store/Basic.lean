import SmallScheme.Value.Fault

namespace SmallScheme

/-!
# The store

The store holds every object that values refer to, one table for each kind.  Objects are only ever
added, so an address stays good; each operation that changes an object changes one slot of one
table.
-/

/-- One level of a scope: its bindings and the namespaces that the host searches from there. -/
structure Frame where
  bindings : List (String × Value)
  namespaces : List String
  deriving Inhabited

/-- The parameters of a procedure. -/
inductive Formals
  /-- All operands are collected in one list. -/
  | variadic (name : String)
  /-- As many operands as names. -/
  | fixed (names : List String)
  /-- At least as many operands as names; the others are collected in a list. -/
  | withRest (names : List String) (rest : String)
  deriving Repr, DecidableEq, Inhabited

/-- A procedure with the scope it was made in. -/
structure Procedure where
  formals : Formals
  body : List Value
  scope : Scope
  name : Option String
  deriving Inhabited

/-- One rule of a transformer: a pattern for the operands and a template. -/
structure Rule where
  pattern : Value
  template : Value
  deriving Inhabited

/-- A macro given by rules, with the scope it was defined in. -/
structure Transformer where
  name : String
  literals : List String
  rules : List Rule
  home : Scope
  deriving Inhabited

/-- A parameter object: its present value and the conversion of new ones. -/
structure Parameter where
  value : Value
  converter : Option Value
  deriving Inhabited

/-- A condition that `error` raised. -/
structure Condition where
  message : String
  irritants : List Value
  deriving Inhabited

/-- An object of the host: its name, and what the host keeps with it. -/
structure ForeignObject where
  name : String
  content : Value
  deriving Inhabited

structure Pair where
  head : Value
  tail : Value
  deriving Inhabited

/-- All objects. -/
structure Store where
  texts : Array String
  pairs : Array Pair
  vectors : Array (Array Value)
  bytevectors : Array (Array UInt8)
  marked : Array Value
  programs : Array (List Value)
  frames : Array Frame
  procedures : Array Procedure
  transformers : Array Transformer
  parameters : Array Parameter
  conditions : Array Condition
  foreigns : Array ForeignObject
  deriving Inhabited

namespace Store

def empty : Store where
  texts := #[]
  pairs := #[]
  vectors := #[]
  bytevectors := #[]
  marked := #[]
  programs := #[]
  frames := #[]
  procedures := #[]
  transformers := #[]
  parameters := #[]
  conditions := #[]
  foreigns := #[]

/-- How many objects with parts there are: no path without a cycle is longer. -/
def extent (store : Store) : Nat :=
  store.pairs.size + store.vectors.size + store.marked.size + store.programs.size +
    store.conditions.size

def textAt (store : Store) (address : Nat) : String :=
  store.texts[address]?.getD ""

/-- The pair that a value is. -/
def pair? (store : Store) : Value → Option Pair
  | .pair address => store.pairs[address]?
  | _ => none

def pairAt (store : Store) (address : Nat) : Pair :=
  store.pairs[address]?.getD default

def vectorAt (store : Store) (address : Nat) : Array Value :=
  store.vectors[address]?.getD #[]

def bytevectorAt (store : Store) (address : Nat) : Array UInt8 :=
  store.bytevectors[address]?.getD #[]

/-- The form under the mark of the abbreviated form at an address. -/
def markedAt (store : Store) (address : Nat) : Value :=
  store.marked[address]?.getD .nil

def programAt (store : Store) (address : Nat) : List Value :=
  store.programs[address]?.getD []

def conditionAt (store : Store) (address : Nat) : Condition :=
  store.conditions[address]?.getD default

end Store

/--
An operation on the store that may fail.  What it changed before it failed stays changed.
-/
abbrev StoreM := ExceptT Fault (StateM Store)

namespace StoreM

/-- Look at the store without changing it. -/
def view {α : Type} (look : Store → α) : StoreM α :=
  fun store => (.ok (look store), store)

/-- Change the store and give an answer. -/
def change {α : Type} (action : Store → α × Store) : StoreM α :=
  fun store =>
    let (answer, changed) := action store
    (.ok answer, changed)

/-- Fail with a fault that may describe values as they now are. -/
def fail {α : Type} (fault : Store → Fault) : StoreM α :=
  fun store => (.error (fault store), store)

end StoreM

namespace Store

/-! Objects are added at the next address of their kind. -/

def newText (text : String) (store : Store) : Value × Store :=
  (.text store.texts.size, { store with texts := store.texts.push text })

def newPair (head tail : Value) (store : Store) : Value × Store :=
  (.pair store.pairs.size, { store with pairs := store.pairs.push ⟨head, tail⟩ })

def newVector (items : Array Value) (store : Store) : Value × Store :=
  (.vector store.vectors.size, { store with vectors := store.vectors.push items })

def newBytevector (bytes : Array UInt8) (store : Store) : Value × Store :=
  (.bytevector store.bytevectors.size, { store with bytevectors := store.bytevectors.push bytes })

def newMarked (mark : Mark) (inner : Value) (store : Store) : Value × Store :=
  (.marked mark store.marked.size, { store with marked := store.marked.push inner })

def newProgram (forms : List Value) (store : Store) : Value × Store :=
  (.program store.programs.size, { store with programs := store.programs.push forms })

def newProcedure (procedure : Procedure) (store : Store) : Value × Store :=
  (.procedure store.procedures.size, { store with procedures := store.procedures.push procedure })

def newTransformer (transformer : Transformer) (store : Store) : Value × Store :=
  (.transformer store.transformers.size,
    { store with transformers := store.transformers.push transformer })

def newParameter (parameter : Parameter) (store : Store) : Value × Store :=
  (.parameter store.parameters.size, { store with parameters := store.parameters.push parameter })

/-- Add a condition and give its address. -/
def newCondition (condition : Condition) (store : Store) : Nat × Store :=
  (store.conditions.size, { store with conditions := store.conditions.push condition })

def newForeign (object : ForeignObject) (store : Store) : Value × Store :=
  (.foreign store.foreigns.size, { store with foreigns := store.foreigns.push object })

/-! Parts of objects are replaced where they are. -/

def setHead (address : Nat) (head : Value) (store : Store) : Store :=
  { store with pairs := store.pairs.modify address fun pair => { pair with head := head } }

def setTail (address : Nat) (tail : Value) (store : Store) : Store :=
  { store with pairs := store.pairs.modify address fun pair => { pair with tail := tail } }

def setVectorItem (address index : Nat) (item : Value) (store : Store) : Store :=
  { store with
    vectors := store.vectors.modify address fun items => items.setIfInBounds index item }

def setByteItem (address index : Nat) (byte : UInt8) (store : Store) : Store :=
  { store with
    bytevectors := store.bytevectors.modify address fun bytes => bytes.setIfInBounds index byte }

def setParameter (address : Nat) (value : Value) (store : Store) : Store :=
  { store with
    parameters := store.parameters.modify address fun parameter =>
      { parameter with value := value } }

/-- Name a procedure that has no name yet. -/
def nameProcedure (address : Nat) (name : String) (store : Store) : Store :=
  { store with
    procedures := store.procedures.modify address fun procedure =>
      match procedure.name with
      | some _ => procedure
      | none => { procedure with name := some name } }

/-- Add the pairs of a list that ends in the given value, last pair first. -/
def newListFrom : List Value → Value → Store → Value × Store
  | [], tail, store => (tail, store)
  | item :: reversed, tail, store =>
      let (extended, store) := store.newPair item tail
      newListFrom reversed extended store

/-- Add a list of the given items that ends in the given value. -/
def newListWithTail (items : List Value) (tail : Value) (store : Store) : Value × Store :=
  newListFrom items.reverse tail store

/-- Add a proper list. -/
def newList (items : List Value) (store : Store) : Value × Store :=
  newListWithTail items .nil store

end Store

/-!
## Fuel

Some walks end only if the program lets them: it may never stop calling itself, lengthen a list
while the list is being walked, or put a value into itself.  Such a walk takes one unit of fuel for
every step and is given more of it than it could use in any time.
-/

/-- More steps than any run takes. -/
def Fuel.ample : Nat :=
  Nat.pow 2 62

end SmallScheme
