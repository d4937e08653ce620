namespace SmallScheme

/-!
# Arities

How many operands an operation accepts.  A count that is refused is reported with the bound that
it breaks.
-/

/-- The accepted numbers of operands. -/
inductive Arity
  | exactly (count : Nat)
  | atLeast (least : Nat)
  | between (least most : Nat)
  | any
  deriving Repr, DecidableEq

namespace Arity

/-- The bound that a number of operands breaks, if it is not accepted. -/
def refuses? (arity : Arity) (given : Nat) : Option Nat :=
  match arity with
  | .exactly count => if given = count then none else some count
  | .atLeast least => if given < least then some least else none
  | .between least most =>
      if given < least then some least else if most < given then some most else none
  | .any => none

def accepts (arity : Arity) (given : Nat) : Prop :=
  match arity with
  | .exactly count => given = count
  | .atLeast least => least ≤ given
  | .between least most => least ≤ given ∧ given ≤ most
  | .any => True

/-- No bound is broken exactly by the accepted numbers. -/
theorem refuses?_eq_none_iff
    {arity : Arity}
    {given : Nat} :
    arity.refuses? given = none ↔ arity.accepts given := by
  cases arity <;> simp only [refuses?, accepts] <;> grind

end Arity

end SmallScheme
