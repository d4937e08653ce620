import SmallScheme.Store.Form

namespace SmallScheme

/-!
# Captures

What the variables of a pattern stand for after a match: a form, the fresh list of what was left,
or one capture for each repetition.
-/

/-- What a pattern variable stands for. -/
inductive Capture
  | one (value : Value)
  | rest (items : List Value) (tail : Value)
  | many (each : List Capture)
  deriving Inhabited

/-- The captures of a match; a later capture of a name hides an earlier one. -/
abbrev Captures := List (String × Capture)

namespace Capture

/-- The identifier that repeats what stands before it. -/
def ellipsis : String := "..."

/-- The identifier that matches everything and captures nothing. -/
def wildcard : String := "_"

mutual

/-- Make the fresh lists that the capture stands for. -/
def settle : Capture → Store → Capture × Store
  | .one value, store => (.one value, store)
  | .rest items tail, store =>
      let (value, store) := store.newListWithTail items tail
      (.one value, store)
  | .many each, store =>
      let (each, store) := settleAll each store
      (.many each, store)

def settleAll : List Capture → Store → List Capture × Store
  | [], store => ([], store)
  | capture :: captures, store =>
      let (capture, store) := settle capture store
      let (captures, store) := settleAll captures store
      (capture :: captures, store)

end

end Capture

namespace Captures

/-- Make the fresh lists that the captures of a match stand for. -/
def settle : Captures → Store → Captures × Store
  | [], store => ([], store)
  | (name, capture) :: rest, store =>
      let (capture, store) := capture.settle store
      let (rest, store) := settle rest store
      ((name, capture) :: rest, store)

end Captures

mutual

/-- The variables of a form, put after those found before. -/
def Form.variables (literals found : List String) : Form → List String
  | .atom _ => found
  | .identifier name _ =>
      if name = Capture.ellipsis || name = Capture.wildcard || literals.contains name ||
          found.contains name then
        found
      else
        found ++ [name]
  | .list items tail _ => Form.variables literals (Form.allVariables literals found items) tail
  | .vector items _ => Form.allVariables literals found items
  | .marked _ inner _ => Form.variables literals found inner

def Form.allVariables (literals found : List String) : List Form → List String
  | [] => found
  | form :: rest => Form.allVariables literals (Form.variables literals found form) rest

end

end SmallScheme
