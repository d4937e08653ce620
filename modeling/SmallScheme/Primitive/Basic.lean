import SmallScheme.Primitive.Numeric
import SmallScheme.Primitive.Sequential
import SmallScheme.Primitive.Structural
import SmallScheme.Script.Basic

namespace SmallScheme.Primitive

/-!
# What the primitives do
-/

/-- Run a primitive on operands without looking at its declared arity. -/
def run (host : Host) : Primitive → List Value → StoreM Value
  | .arithmetic operation => operation.run
  | .comparison relation => relation.run
  | .equivalence operation => operation.run
  | .listing operation => operation.run
  | .kindTest test => test.run
  | .sequence operation => operation.run
  | .textual operation => operation.run host.engine
  | .signalling operation => operation.run
  | .foreign name _ => host.function name

/-- Run a primitive on operands that its declared arity accepts. -/
def apply (host : Host) (primitive : Primitive) (operands : List Value) : StoreM Value :=
  match primitive.arity.refuses? operands.length with
  | some bound => throw (.arity bound operands.length none)
  | none => primitive.run host operands

end SmallScheme.Primitive
