import SmallScheme.Decimal.Shortest

namespace SmallScheme.Decimal

/-!
# The text of a real number

A real is written in positional notation at any magnitude.  What differs between the form that the
reader accepts and the form used for inspection is gathered in one record.
-/

/-- The decisions of a way to write real numbers. -/
structure RealFormat where
  notANumber : String
  positiveInfinity : String
  negativeInfinity : String
  /-- Whole numbers are written with all their digits and `.0`. -/
  marksWholes : Bool
  deriving Repr, DecidableEq

/-- The form that the reader accepts. -/
def RealFormat.literal : RealFormat where
  notANumber := "+nan.0"
  positiveInfinity := "+inf.0"
  negativeInfinity := "-inf.0"
  marksWholes := true

/-- The bare form used when a value is inspected. -/
def RealFormat.bare : RealFormat where
  notANumber := "NaN"
  positiveInfinity := "inf"
  negativeInfinity := "-inf"
  marksWholes := false

/-- The absolute value of a finite double. -/
def RealFormat.magnitude
    (format : RealFormat)
    (number : Binary) : String :=
  match number.whole? with
  | some whole =>
      if format.marksWholes then
        Nat.repr whole ++ ".0"
      else if whole = 0 then
        "0"
      else
        (shortest number.significand number.exponent).positional
  | none => (shortest number.significand number.exponent).positional

/-- The text of a double. -/
def RealFormat.text
    (format : RealFormat)
    (real : Float) : String :=
  match Binary.ofFloat? real with
  | some number => (if number.negative then "-" else "") ++ format.magnitude number
  | none =>
      if real.isNaN then
        format.notANumber
      else if real < 0 then
        format.negativeInfinity
      else
        format.positiveInfinity

end SmallScheme.Decimal
