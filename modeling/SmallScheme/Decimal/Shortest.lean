namespace SmallScheme.Decimal

/-!
# Binary floating point numbers as exact values

A finite double is an integer times a power of two.  This module takes a double apart into its
sign, that integer and that exponent, so that decimal forms can be computed exactly.
-/

/-- The value `± significand * 2 ^ exponent`. -/
structure Binary where
  negative : Bool
  significand : Nat
  exponent : Int
  deriving Repr, DecidableEq

/-- The exponent of the smallest positive double, which all subnormal numbers share. -/
def leastExponent : Int := -1074

/-- The significand of a normal double is at least this. -/
def normalSignificand : Nat := Nat.pow 2 52

/-- The parts of a finite double; infinities and not-a-number have none. -/
def Binary.ofFloat? (real : Float) : Option Binary :=
  let bits := real.toBits.toNat
  let negative := decide (Nat.pow 2 63 ≤ bits)
  let biased := bits / normalSignificand % Nat.pow 2 11
  let fraction := bits % normalSignificand
  if biased = Nat.pow 2 11 - 1 then
    none
  else if biased = 0 then
    some ⟨negative, fraction, leastExponent⟩
  else
    some ⟨negative, normalSignificand + fraction, leastExponent + (biased - 1 : Nat)⟩

/-- The absolute value when it is a whole number. -/
def Binary.whole? (number : Binary) : Option Nat :=
  let up := Nat.pow 2 number.exponent.toNat
  let down := Nat.pow 2 (-number.exponent).toNat
  if number.significand * up % down = 0 then
    some (number.significand * up / down)
  else
    none

/-- The double is finite and has no fractional part. -/
def isWhole (real : Float) : Bool :=
  ((Binary.ofFloat? real).bind Binary.whole?).isSome

/-!
## The shortest decimal that reads back

Every double is the nearest double to all reals in an interval around it.  The shortest decimal of
a double is the point of that interval that lies on the coarsest grid of powers of ten; of two
such points the nearer one is taken, and of two equally near ones the larger.
-/

/-- The decimal `digits * 10 ^ scale`. -/
structure Digits where
  digits : Nat
  scale : Int
  deriving Repr, DecidableEq

/--
The reals that round to `significand * 2 ^ exponent`, measured in quarters of the last binary
place.  The gap below the least normal significand is half as wide as the gap above it.
-/
structure Neighbourhood where
  low : Nat
  value : Nat
  high : Nat
  closed : Bool
  deriving Repr, DecidableEq

/-- The interval of reals that round to a positive double. -/
def Neighbourhood.of
    (significand : Nat)
    (exponent : Int) : Neighbourhood :=
  let gap := if significand = normalSignificand && leastExponent < exponent then 1 else 2
  { low := 4 * significand - gap
    value := 4 * significand
    high := 4 * significand + 2
    closed := significand % 2 = 0 }

/-- The quotient `number / unit` lies in the interval that has been scaled by `scaling`. -/
def Neighbourhood.holds
    (around : Neighbourhood)
    (scaling point : Nat) : Bool :=
  if around.closed then
    around.low * scaling ≤ point && point ≤ around.high * scaling
  else
    around.low * scaling < point && point < around.high * scaling

/-- The chosen multiple of `10 ^ scale` in the interval, if the grid has one there. -/
def gridPoint?
    (around : Neighbourhood)
    (exponent scale : Int) : Option Nat :=
  let unit := exponent - 2
  let step := Nat.pow 10 scale.toNat * Nat.pow 2 (-unit).toNat
  let scaling := Nat.pow 10 (-scale).toNat * Nat.pow 2 unit.toNat
  let value := around.value * scaling
  let below := value / step
  let above := below + 1
  match around.holds scaling (below * step), around.holds scaling (above * step) with
  | true, true => some (if value - below * step < above * step - value then below else above)
  | true, false => some below
  | false, true => some above
  | false, false => none

/-- The first grid with a point in the interval, from `scale` downwards. -/
def coarsestPoint?
    (around : Neighbourhood)
    (exponent : Int) : Nat → Int → Option Digits
  | 0, _ => none
  | steps + 1, scale =>
      match gridPoint? around exponent scale with
      | some digits => some ⟨digits, scale⟩
      | none => coarsestPoint? around exponent steps (scale - 1)

/-- A power of ten above `significand * 2 ^ exponent`, by at most three places. -/
def decimalBound
    (significand : Nat)
    (exponent : Int) : Int :=
  (((significand.log2 : Int) + 1 + exponent) * 30103).fdiv 100000 + 2

/-- The shortest decimal of a positive double.  Seventeen digits always suffice. -/
def shortest
    (significand : Nat)
    (exponent : Int) : Digits :=
  let found :=
    coarsestPoint? (Neighbourhood.of significand exponent) exponent 22
      (decimalBound significand exponent)
  found.getD ⟨0, 0⟩

/-- Positional notation without an exponent, and without a point when no place follows it. -/
def Digits.positional (decimal : Digits) : String :=
  let written := (Nat.repr decimal.digits).toList
  let places := (-decimal.scale).toNat
  if places = 0 then
    String.ofList (written ++ List.replicate decimal.scale.toNat '0')
  else if written.length ≤ places then
    String.ofList (['0', '.'] ++ List.replicate (places - written.length) '0' ++ written)
  else
    let whole := written.length - places
    String.ofList (written.take whole ++ '.' :: written.drop whole)

end SmallScheme.Decimal
