import SmallScheme.Store.Basic

namespace SmallScheme.Store

/-!
# Data as values

Putting a datum into the store makes fresh objects for all its parts.  The two kinds of leaf that
have no written form never come from the reader; they are put in as far as they are known.
-/

mutual

/-- Put a datum into the store. -/
def load : Datum → Store → Value × Store
  | .nil, store => (.nil, store)
  | .unspecified, store => (.unspecified, store)
  | .integer value, store => (.integer value, store)
  | .real value, store => (.real value, store)
  | .boolean value, store => (.boolean value, store)
  | .character value, store => (.character value, store)
  | .text value, store => store.newText value
  | .symbol name, store => (.symbol name, store)
  | .pair head tail, store =>
      let (head, store) := load head store
      let (tail, store) := load tail store
      store.newPair head tail
  | .vector items, store =>
      let (items, store) := loadAll items store
      store.newVector items.toArray
  | .bytevector bytes, store => store.newBytevector bytes.toArray
  | .marked mark inner, store =>
      let (inner, store) := load inner store
      store.newMarked mark inner
  | .regex pattern, store => (.regex pattern, store)
  | .program forms, store =>
      let (forms, store) := loadAll forms store
      store.newProgram forms
  | .circular items, store =>
      let (items, store) := loadAll items store
      store.newList items
  | .handle _ _, store => (.unspecified, store)

def loadAll : List Datum → Store → List Value × Store
  | [], store => ([], store)
  | item :: rest, store =>
      let (item, store) := load item store
      let (rest, store) := loadAll rest store
      (item :: rest, store)

end

end SmallScheme.Store
