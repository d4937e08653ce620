import SmallScheme.Word

namespace SmallScheme.Decimal

/-!
# Decimal numerals

What a numeral denotes: whole numbers in a 64-bit range, in any base up to sixteen, and reals.
Each reader takes the complete text of a numeral and fails unless all of it belongs to the
numeral.
-/

/-- The value of a digit, upper or lower case. -/
def digit? (character : Char) : Option Nat :=
  if '0' ≤ character && character ≤ '9' then
    some (character.toNat - '0'.toNat)
  else if 'a' ≤ character && character ≤ 'f' then
    some (character.toNat - 'a'.toNat + 10)
  else if 'A' ≤ character && character ≤ 'F' then
    some (character.toNat - 'A'.toNat + 10)
  else
    none

/-- The number written after `sofar`, when every character is a digit of the base. -/
def naturalFrom?
    (base : Nat) : Nat → List Char → Option Nat
  | sofar, [] => some sofar
  | sofar, character :: rest => do
      let digit ← digit? character
      guard (digit < base)
      naturalFrom? base (sofar * base + digit) rest

/-- A numeral of at least one digit. -/
def natural?
    (base : Nat)
    (numeral : List Char) : Option Nat :=
  if numeral.isEmpty then none else naturalFrom? base 0 numeral

/-- Take a leading sign off; the flag tells whether it was a minus. -/
def splitSign : List Char → Bool × List Char
  | '-' :: rest => (true, rest)
  | '+' :: rest => (false, rest)
  | numeral => (false, numeral)

/-- A numeral with an optional sign whose value fits in 64 bits. -/
def integer?
    (base : Nat)
    (numeral : List Char) : Option Int64 := do
  let (negative, digits) := splitSign numeral
  let magnitude ← natural? base digits
  let value : Int := if negative then -magnitude else magnitude
  word? value

/-- Split off the leading decimal digits. -/
def spanDigits (text : List Char) : List Char × List Char :=
  text.span Char.isDigit

/-- The exponent part of a real: nothing, or a mark, an optional sign and digits. -/
def exponent? : List Char → Option Int
  | [] => some 0
  | mark :: rest => do
      guard (mark = 'e' || mark = 'E')
      let (negative, digits) := splitSign rest
      let magnitude ← natural? 10 digits
      return if negative then -magnitude else magnitude

/-- The double nearest to `digits * 10 ^ scale`, where far too large or small scales saturate. -/
def nearest
    (digits : Nat)
    (scale : Int) : Float :=
  let magnitude := (Nat.repr digits).length + scale
  if digits = 0 || magnitude < -400 then
    0
  else if 400 < magnitude then
    1.0 / 0.0
  else if scale < 0 then
    Float.ofScientific digits true (-scale).toNat
  else
    Float.ofScientific digits false scale.toNat

/--
A real: an optional sign, digits with at most one point among them and at least one digit in all,
and an optional exponent.
-/
def real? (numeral : List Char) : Option Float := do
  let (negative, unsigned) := splitSign numeral
  let (whole, afterWhole) := spanDigits unsigned
  let (fraction, afterFraction) :=
    match afterWhole with
    | '.' :: rest => spanDigits rest
    | rest => ([], rest)
  let digits ← natural? 10 (whole ++ fraction)
  let exponent ← exponent? afterFraction
  let magnitude := nearest digits (exponent - fraction.length)
  return if negative then -magnitude else magnitude

end SmallScheme.Decimal
