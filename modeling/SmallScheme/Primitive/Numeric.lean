import SmallScheme.Primitive.Signature

namespace SmallScheme

/-!
# Numeric primitives

Arithmetic folds its operands from left to right and refuses the first result that does not fit.
Comparison holds when every two neighbours are related; not-a-number is related to nothing.
-/

/-- A result that fits, or an overflow in the named operation. -/
def fitting (operation : String) (result : Option Number) : StoreM Number :=
  match result with
  | some number => return number
  | none => throw (.evaluation (.overflow operation))

/-- Divide two numbers. -/
def divideNumbers (dividend divisor : Number) : StoreM Number :=
  if divisor.isZero then
    throw (.evaluation .divisionByZero)
  else
    fitting "division" (dividend.divide? divisor)

/--
Divide two whole numbers and give a part of the result.  The quotient itself must fit, whichever
part is wanted.
-/
def wholeDivision
    (part : Int → Int → Int)
    (dividend divisor : Int64) : StoreM Value :=
  if divisor = 0 then
    throw (.evaluation .divisionByZero)
  else if fitsWord (dividend.toInt.tdiv divisor.toInt) then
    return .integer (Int64.ofInt (part dividend.toInt divisor.toInt))
  else
    throw (.evaluation (.overflow "division"))

namespace Arithmetic

/-- Combine numbers from left to right. -/
def foldNumbers
    (combine : Number → Number → StoreM Number)
    (first : Number)
    (rest : List Number) : StoreM Value := do
  let result ← rest.foldlM combine first
  return .ofNumber result

/-- One number of signature `number`, then any numbers. -/
def leading : Signature :=
  ⟨[.number], some .number⟩

def numbers : Signature :=
  ⟨[], some .number⟩

def integers : Signature :=
  ⟨[.integer, .integer], none⟩

def run : Arithmetic → List Value → StoreM Value
  | .add =>
      numbers.adapt fun operands =>
        foldNumbers (fun first second => fitting "addition" (first.add? second)) (.exact 0) operands
  | .multiply =>
      numbers.adapt fun operands =>
        foldNumbers (fun first second => fitting "multiplication" (first.multiply? second))
          (.exact 1) operands
  | .subtract =>
      leading.adapt fun first rest =>
        match rest with
        | [] => do
            let result ← fitting "negation" ((Number.exact 0).subtract? first)
            return .ofNumber result
        | _ =>
            foldNumbers (fun first second => fitting "subtraction" (first.subtract? second))
              first rest
  | .divide =>
      leading.adapt fun first rest =>
        match rest with
        | [] => do
            let result ← divideNumbers (.exact 1) first
            return .ofNumber result
        | _ => foldNumbers divideNumbers first rest
  | .quotient => integers.adapt (wholeDivision Int.tdiv)
  | .remainder => integers.adapt (wholeDivision Int.tmod)
  | .modulo => integers.adapt (wholeDivision Int.fmod)
  | .absolute =>
      Signature.adapt ⟨[.number], none⟩ fun number => do
        let result ← fitting "abs" number.absolute?
        return .ofNumber result
  | .maximum => leading.adapt fun first rest => return .ofNumber (Number.extreme .gt first rest)
  | .minimum => leading.adapt fun first rest => return .ofNumber (Number.extreme .lt first rest)

end Arithmetic

namespace Comparison

/-- The orderings that the relation admits. -/
def admits : Comparison → Ordering → Bool
  | .equal, ordering => ordering = .eq
  | .less, ordering => ordering = .lt
  | .greater, ordering => ordering = .gt
  | .atMost, ordering => ordering ≠ .gt
  | .atLeast, ordering => ordering ≠ .lt

/-- The relation holds between two numbers. -/
def holds (relation : Comparison) (first second : Number) : Bool :=
  match first.compare? second with
  | some ordering => relation.admits ordering
  | none => false

/-- The relation holds between neighbours all along. -/
def holdsAlong (relation : Comparison) : Number → List Number → Bool
  | _, [] => true
  | first, second :: rest => relation.holds first second && holdsAlong relation second rest

def run (relation : Comparison) : List Value → StoreM Value :=
  Signature.adapt ⟨[.number], some .number⟩ fun first rest =>
    return .boolean (relation.holdsAlong first rest)

end Comparison

end SmallScheme
