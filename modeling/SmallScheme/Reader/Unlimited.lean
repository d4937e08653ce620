import SmallScheme.Reader.Opening

namespace SmallScheme.Reader

/-!
# Reading without a limit

The reference for the limit on nesting.  The unlimited reader goes about its work as the reader
does, only that it never asks how deep it is.  It records every datum that it begins to read, with
the level and the text that was left there.
-/

/-- The beginning of a datum: how deep it is nested, and the text that was left. -/
structure Beginning where
  depth : Nat
  text : List Char
  deriving Repr, DecidableEq

/-- How a reading ends, and the data that were begun in the course of it, in order. -/
structure Reading (Error Answer : Type) where
  outcome : Except Error Answer
  begun : List Beginning

namespace Reading

variable {Error Answer : Type}

instance : Monad (Reading Error) where
  pure answer := ⟨.ok answer, []⟩
  bind first rest :=
    match first.outcome with
    | .error failure => ⟨.error failure, first.begun⟩
    | .ok answer => ⟨(rest answer).outcome, first.begun ++ (rest answer).begun⟩

/-- A reading in which no datum is begun. -/
def plain (outcome : Except Error Answer) : Reading Error Answer :=
  ⟨outcome, []⟩

/-- The reading of a datum at a nesting depth. -/
def beginning
    (depth : Nat)
    (text : List Char)
    (reading : Reading Error Answer) : Reading Error Answer :=
  { reading with begun := ⟨depth, text⟩ :: reading.begun }

end Reading

namespace Unlimited

open Reading

variable [Regex.Engine]

mutual

/-- One datum at a nesting depth, whatever the depth. -/
def readDatum : Nat → Nat → List Char → Reading Failure (Datum × List Char)
  | 0, _, text => plain (.error ⟨.form, text⟩)
  | fuel + 1, depth, text =>
      beginning depth text <|
        match opening (afterGap text) with
        | .mark mark rest => readMarked fuel depth mark rest
        | .list rest => readTail fuel depth false rest
        | .text rest => plain (readTextDatum rest)
        | .vector rest => do
            let (items, after) ← readItems fuel depth rest
            return (.vector items, after)
        | .bytevector rest => do
            let (items, after) ← readItems fuel depth rest
            plain (bytesOf rest items after)
        | .regex rest => plain (readRegex rest)
        | .character rest => plain (readCharacter rest)
        | .constant rest => plain (readConstant ('#' :: rest))
        | .atom start => plain (readAtom start)

/-- The datum that an abbreviation stands before. -/
def readMarked : Nat → Nat → Mark → List Char → Reading Failure (Datum × List Char)
  | 0, _, _, text => plain (.error ⟨.form, text⟩)
  | fuel + 1, depth, mark, text => do
      let (inner, rest) ← readDatum fuel (depth + 1) text
      return (.marked mark inner, rest)

/-- The items of a vector up to its closing parenthesis. -/
def readItems : Nat → Nat → List Char → Reading Failure (List Datum × List Char)
  | 0, _, text => plain (.error ⟨.form, text⟩)
  | fuel + 1, depth, text =>
      match upcoming (afterGap text) with
      | .nothing => plain (.error ⟨.form, []⟩)
      | .close rest => plain (.ok ([], rest))
      | .item start => do
          let (item, afterItem) ← readDatum fuel (depth + 1) start
          let (items, rest) ← readItems fuel depth afterItem
          return (item :: items, rest)

/-- What is left of a list up to its closing parenthesis. -/
def readTail : Nat → Nat → Bool → List Char → Reading Failure (Datum × List Char)
  | 0, _, _, text => plain (.error ⟨.form, text⟩)
  | fuel + 1, depth, started, text =>
      match upcoming (afterGap text) with
      | .nothing => plain (.error ⟨.form, []⟩)
      | .close rest => plain (.ok (.nil, rest))
      | .item start =>
          match afterDot? start with
          | some rest =>
              if started then do
                let (tail, afterTail) ← readDatum fuel (depth + 1) rest
                plain (closeAfter tail afterTail)
              else
                plain (.error ⟨.form, start⟩)
          | none => readElement fuel depth start

/-- One element of a list and what is left of the list after it. -/
def readElement : Nat → Nat → List Char → Reading Failure (Datum × List Char)
  | 0, _, text => plain (.error ⟨.form, text⟩)
  | fuel + 1, depth, text => do
      let (head, afterHead) ← readDatum fuel (depth + 1) text
      let (tail, rest) ← readTail fuel depth true afterHead
      return (.pair head tail, rest)

end

/-- The data of a text up to its end, each with so much fuel more than suffices. -/
def readForms (more : Nat) : Nat → List Char → Reading Failure (List Datum)
  | 0, text => plain (.error ⟨.form, text⟩)
  | fuel + 1, text =>
      match afterGap text with
      | [] => plain (.ok [])
      | start => do
          let (form, rest) ← readDatum (readingFuel start + more) 0 start
          let forms ← readForms more fuel rest
          return form :: forms

end Unlimited

/-- How the reading of a text of one datum ends, if the reading of the datum ends in this way. -/
def concludeOne
    (text : List Char) : Except Failure (Datum × List Char) → Except ReadError Datum
  | .error failure => .error (failure.toReadError text)
  | .ok (datum, rest) =>
      match afterGap rest with
      | [] => .ok datum
      | trailing =>
          .error
            (.around (.trailing (String.ofList trailing)) text
              (Text.byteSize text - Text.byteSize trailing))

/-- How the reading of all data of a text ends, if the data are read in this way. -/
def concludeAll
    (text : List Char)
    (outcome : Except Failure (List Datum)) : Except ReadError (List Datum) :=
  outcome.mapError (·.toReadError text)

/-- Read a text that consists of exactly one datum, however deep it is nested. -/
def Unlimited.readOne [Regex.Engine] (more : Nat) (source : String) : Reading ReadError Datum :=
  let text := source.toList
  let reading := readDatum (readingFuel text + more) 0 text
  ⟨concludeOne text reading.outcome, reading.begun⟩

/-- Read all data of a text, however deep they are nested. -/
def Unlimited.readAll [Regex.Engine] (more : Nat) (source : String) :
    Reading ReadError (List Datum) :=
  let text := source.toList
  let reading := readForms more (text.length + 1 + more) text
  ⟨concludeAll text reading.outcome, reading.begun⟩

/-! The entry points of the reader, in these terms. -/

variable {engine : Regex.Engine}

theorem readOne_eq_conclude
    (source : String) :
    readOne source =
      concludeOne source.toList (readDatum (readingFuel source.toList) 0 source.toList) := by
  cases outcome : readDatum (readingFuel source.toList) 0 source.toList <;>
    simp only [readOne, outcome] <;>
    rfl

theorem readAll_eq_conclude
    (source : String) :
    readAll source =
      concludeAll source.toList (readForms (source.toList.length + 1) source.toList) := by
  cases outcome : readForms (source.toList.length + 1) source.toList <;>
    simp only [readAll, outcome] <;>
    rfl

end SmallScheme.Reader
