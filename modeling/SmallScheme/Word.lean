namespace SmallScheme

/-!
# Exact whole numbers of 64 bits

Whole numbers are computed without bounds and accepted when they fit in a signed 64-bit word.
-/

/-- The number lies in the range of a signed 64-bit word. -/
def fitsWord (value : Int) : Bool :=
  Int64.minValue.toInt ≤ value && value ≤ Int64.maxValue.toInt

/-- The word with this value, unless it is out of range. -/
def word? (value : Int) : Option Int64 :=
  if fitsWord value then some (Int64.ofInt value) else none

/-- The real nearest to the word, the even one of two that are equally near. -/
def realOfWord (word : Int64) : Float :=
  .ofModel (.ofInt64 word)

theorem fitsWord_iff
    {value : Int} :
    fitsWord value = true ↔ ∃ word : Int64, word.toInt = value := by
  have least : Int64.minValue.toInt = -2 ^ 63 := by decide
  have greatest : Int64.maxValue.toInt = 2 ^ 63 - 1 := by decide
  simp only [fitsWord, Bool.and_eq_true, decide_eq_true_eq, least, greatest]
  constructor
  · intro inRange
    exact ⟨Int64.ofInt value, Int64.toInt_ofInt_of_le (by omega) (by omega)⟩
  · rintro ⟨word, rfl⟩
    have := Int64.le_toInt word
    have := Int64.toInt_lt word
    omega

theorem word?_toInt
    (word : Int64) :
    word? word.toInt = some word := by
  rw [word?, if_pos (fitsWord_iff.mpr ⟨word, rfl⟩), Int64.ofInt_toInt]

end SmallScheme
