import SmallScheme.Decimal.RealText
import SmallScheme.Word

namespace SmallScheme

/-!
# Numbers

A number is exact, a whole number of 64 bits, or real.  Exact operands give exact results; a result
out of range is refused, never wrapped.  One real operand makes the result real.
-/

/-- An exact or a real number. -/
inductive Number
  | exact (value : Int64)
  | real (value : Float)

namespace Number

/-- The real that a number widens to. -/
def toReal : Number → Float
  | .exact value => realOfWord value
  | .real value => value

def isReal : Number → Bool
  | .exact _ => false
  | .real _ => true

def written : Number → String
  | .exact value => Int.repr value.toInt
  | .real value => Decimal.RealFormat.literal.text value

/-- Combine two numbers exactly where both are exact; `none` tells that the result does not fit. -/
def combine?
    (onExact : Int → Int → Int)
    (onReal : Float → Float → Float) : Number → Number → Option Number
  | .exact first, .exact second => (word? (onExact first.toInt second.toInt)).map .exact
  | first, second => some (.real (onReal first.toReal second.toReal))

def add? : Number → Number → Option Number :=
  combine? (· + ·) (· + ·)

def subtract? : Number → Number → Option Number :=
  combine? (· - ·) (· - ·)

def multiply? : Number → Number → Option Number :=
  combine? (· * ·) (· * ·)

def isZero (number : Number) : Bool :=
  number.toReal == 0

/--
The quotient by a number other than zero: exact when both are exact and the division leaves no
remainder, and otherwise real.
-/
def divide? : Number → Number → Option Number
  | .exact first, .exact second =>
      if first.toInt.tmod second.toInt = 0 then
        (word? (first.toInt.tdiv second.toInt)).map .exact
      else
        some (.real (realOfWord first / realOfWord second))
  | first, second => some (.real (first.toReal / second.toReal))

/-- How two numbers compare; not-a-number compares with nothing. -/
def compare? : Number → Number → Option Ordering
  | .exact first, .exact second => some (compare first.toInt second.toInt)
  | first, second =>
      if first.toReal < second.toReal then
        some .lt
      else if second.toReal < first.toReal then
        some .gt
      else if first.toReal == second.toReal then
        some .eq
      else
        none

/-- The absolute value, unless it does not fit. -/
def absolute? : Number → Option Number
  | .exact value => (word? value.toInt.natAbs).map .exact
  | .real value => some (.real value.abs)

/--
The first number among `first` and `rest` that compares as `wanted` with all that were preferred
before it.  One real among the numbers makes the result real.
-/
def extreme
    (wanted : Ordering)
    (first : Number)
    (rest : List Number) : Number :=
  let prefer best number := if compare? number best = some wanted then number else best
  let best := rest.foldl prefer first
  if first.isReal || rest.any isReal then .real best.toReal else best

end Number

end SmallScheme
