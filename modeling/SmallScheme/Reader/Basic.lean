import SmallScheme.Reader.ReadError
import SmallScheme.Reader.Token
import SmallScheme.Regex.Engine

namespace SmallScheme.Reader

/-!
# Reading data

The reader turns a text into data.  It looks at the first character after blanks and comments and
decides by it what follows.  When it cannot go on it reports what it stumbled over and the text
that was left there.  Which patterns are regular expressions is for the engine to tell.
-/

variable [Regex.Engine]

/-- What the reader stumbled over. -/
inductive Stumble
  | nesting
  | number
  | escape
  | regex
  | character
  | form
  deriving Repr, DecidableEq

/-- A stumble and the text that was left. -/
structure Failure where
  stumble : Stumble
  rest : List Char
  deriving Repr, DecidableEq

/-- What the reader is passing over between two data. -/
inductive Gap
  | layout
  | line
  | block (opening : List Char)
  deriving Repr, DecidableEq

/--
Pass over blanks and comments.  A line comment goes on to the end of the line, a block comment to
the first closing mark; a block comment that is never closed is not passed over.
-/
def skipGap : Gap → List Char → List Char
  | .layout, [] => []
  | .layout, character :: rest =>
      if Text.isLayout character then
        skipGap .layout rest
      else if character = ';' then
        skipGap .line rest
      else if character = '#' then
        match rest with
        | '|' :: inner => skipGap (.block (character :: rest)) inner
        | _ => character :: rest
      else
        character :: rest
  | .line, [] => []
  | .line, character :: rest =>
      if character = '\n' then skipGap .layout rest else skipGap .line rest
  | .block opening, [] => opening
  | .block _, '|' :: '#' :: rest => skipGap .layout rest
  | .block opening, _ :: rest => skipGap (.block opening) rest

/-- The text after blanks and comments. -/
def afterGap (text : List Char) : List Char :=
  skipGap .layout text

/--
The rest of a text literal after its opening quote.  A backslash at the end of a line joins it to
the next one, whose leading spaces and tabs are dropped.
-/
def readText (joining : Bool) : List Char → Except Failure (List Char × List Char)
  | [] => .error ⟨.form, []⟩
  | character :: rest =>
      if joining && (character = ' ' || character = '\t') then
        readText true rest
      else if character = '\x22' then
        .ok ([], rest)
      else if character = '\\' then
        match rest with
        | [] => .error ⟨.form, []⟩
        | letter :: after =>
            if letter = '\n' then
              readText true after
            else
              match textEscape? letter with
              | some escaped => do
                  let (characters, last) ← readText false after
                  return (escaped :: characters, last)
              | none => .error ⟨.escape, character :: rest⟩
      else do
        let (characters, last) ← readText false rest
        return (character :: characters, last)

/-- The pattern of a regular expression up to its closing slash. -/
def readPattern : List Char → Except Failure (List Char × List Char)
  | [] => .error ⟨.form, []⟩
  | '/' :: rest => .ok ([], rest)
  | '\\' :: [] => .error ⟨.form, []⟩
  | '\\' :: character :: rest => do
      let (characters, last) ← readPattern rest
      if character = '/' then
        return ('/' :: characters, last)
      else
        return ('\\' :: character :: characters, last)
  | character :: rest => do
      let (characters, last) ← readPattern rest
      return (character :: characters, last)

/-- A regular expression after its opening slash. -/
def readRegex (text : List Char) : Except Failure (Datum × List Char) := do
  let (characters, rest) ← readPattern text
  let pattern := String.ofList characters
  if Regex.Engine.compiles pattern then
    return (.regex pattern, rest)
  else
    .error ⟨.regex, text⟩

/-- A character literal after its backslash: any one character, or a name. -/
def readCharacter : List Char → Except Failure (Datum × List Char)
  | [] => .error ⟨.form, []⟩
  | first :: others =>
      let (name, rest) := spanToken others
      if name.isEmpty then
        .ok (.character first, rest)
      else
        match namedCharacter? (first :: name) with
        | some value => .ok (.character value, rest)
        | none => .error ⟨.character, first :: others⟩

/-- A constant after the hash sign; `text` starts with the hash sign. -/
def readConstant (text : List Char) : Except Failure (Datum × List Char) :=
  let (token, rest) := spanToken (text.drop 1)
  match token with
  | ['t'] => .ok (.boolean true, rest)
  | ['f'] => .ok (.boolean false, rest)
  | ['t', 'r', 'u', 'e'] => .ok (.boolean true, rest)
  | ['f', 'a', 'l', 's', 'e'] => .ok (.boolean false, rest)
  | letter :: digits =>
      if letter = 'x' || letter = 'X' then
        match Decimal.integer? 16 digits with
        | some value => .ok (.integer value, rest)
        | none => .error ⟨.number, text⟩
      else
        .error ⟨.form, text⟩
  | [] => .error ⟨.form, text⟩

/-- A number or a symbol. -/
def readAtom (text : List Char) : Except Failure (Datum × List Char) :=
  let (token, rest) := spanToken text
  if token.isEmpty || token = ['.'] then
    .error ⟨.form, text⟩
  else
    match readNumeral token with
    | .number datum => .ok (datum, rest)
    | .malformed => .error ⟨.number, text⟩
    | .notNumeric => .ok (.symbol (String.ofList token), rest)

/-- The byte that a datum denotes. -/
def byte? : Datum → Option UInt8
  | .integer value =>
      if 0 ≤ value.toInt && value.toInt ≤ 255 then some (UInt8.ofNat value.toInt.toNat) else none
  | _ => none

mutual

/--
One datum at a nesting depth.  The fuel bounds the recursion; twice the length of the text is
always enough.
-/
def readDatum : Nat → Nat → List Char → Except Failure (Datum × List Char)
  | 0, _, text => .error ⟨.form, text⟩
  | fuel + 1, depth, text =>
      if maxNesting ≤ depth then
        .error ⟨.nesting, text⟩
      else
        match afterGap text with
        | '\x27' :: rest => readMarked fuel depth .quote rest
        | '\x60' :: rest => readMarked fuel depth .quasiquote rest
        | ',' :: '@' :: rest => readMarked fuel depth .unquoteSplicing rest
        | ',' :: rest => readMarked fuel depth .unquote rest
        | '(' :: rest => readTail fuel depth false rest
        | '\x22' :: rest => do
            let (characters, after) ← readText false rest
            return (.text (String.ofList characters), after)
        | '#' :: '(' :: rest => do
            let (items, after) ← readItems fuel depth rest
            return (.vector items, after)
        | '#' :: 'u' :: '8' :: '(' :: rest => do
            let (items, after) ← readItems fuel depth rest
            match items.mapM byte? with
            | some bytes => return (.bytevector bytes, after)
            | none => .error ⟨.number, '#' :: 'u' :: '8' :: '(' :: rest⟩
        | '#' :: '/' :: rest => readRegex rest
        | '#' :: '\\' :: rest => readCharacter rest
        | '#' :: rest => readConstant ('#' :: rest)
        | start => readAtom start

/-- The datum that an abbreviation stands before. -/
def readMarked : Nat → Nat → Mark → List Char → Except Failure (Datum × List Char)
  | 0, _, _, text => .error ⟨.form, text⟩
  | fuel + 1, depth, mark, text => do
      let (inner, rest) ← readDatum fuel (depth + 1) text
      return (.marked mark inner, rest)

/-- The items of a vector up to its closing parenthesis. -/
def readItems : Nat → Nat → List Char → Except Failure (List Datum × List Char)
  | 0, _, text => .error ⟨.form, text⟩
  | fuel + 1, depth, text =>
      match afterGap text with
      | [] => .error ⟨.form, []⟩
      | ')' :: rest => .ok ([], rest)
      | start => do
          let (item, afterItem) ← readDatum fuel (depth + 1) start
          let (items, rest) ← readItems fuel depth afterItem
          return (item :: items, rest)

/--
What is left of a list up to its closing parenthesis; a dot may come before the last datum once
the list has started.
-/
def readTail : Nat → Nat → Bool → List Char → Except Failure (Datum × List Char)
  | 0, _, _, text => .error ⟨.form, text⟩
  | fuel + 1, depth, started, text =>
      match afterGap text with
      | [] => .error ⟨.form, []⟩
      | ')' :: rest => .ok (.nil, rest)
      | '.' :: rest =>
          if endsToken rest then
            if started then do
              let (tail, afterTail) ← readDatum fuel (depth + 1) rest
              match afterGap afterTail with
              | ')' :: last => return (tail, last)
              | last => .error ⟨.form, last⟩
            else
              .error ⟨.form, '.' :: rest⟩
          else
            readElement fuel depth ('.' :: rest)
      | start => readElement fuel depth start

/-- One element of a list and what is left of the list after it. -/
def readElement : Nat → Nat → List Char → Except Failure (Datum × List Char)
  | 0, _, text => .error ⟨.form, text⟩
  | fuel + 1, depth, text => do
      let (head, afterHead) ← readDatum fuel (depth + 1) text
      let (tail, rest) ← readTail fuel depth true afterHead
      return (.pair head tail, rest)

end

/-- Fuel that suffices for a text. -/
def readingFuel (text : List Char) : Nat :=
  3 * text.length + 4

/-- The data of a text up to its end. -/
def readForms : Nat → List Char → Except Failure (List Datum)
  | 0, text => .error ⟨.form, text⟩
  | fuel + 1, text =>
      match afterGap text with
      | [] => .ok []
      | start => do
          let (form, rest) ← readDatum (readingFuel start) 0 start
          let forms ← readForms fuel rest
          return form :: forms

/-- How many characters of the text that was left an error message shows. -/
def shownRest : Nat := 10

/-- The reading error that a failure within a text amounts to. -/
def Failure.toReadError
    (source : List Char)
    (failure : Failure) : ReadError :=
  let position := Text.byteSize source - Text.byteSize failure.rest
  let near := ReadCause.badForm (String.ofList (failure.rest.take shownRest))
  let cause :=
    match failure.stumble, failure.rest with
    | .nesting, _ => .tooDeep
    | _, [] => .endOfText
    | .number, _ => .badNumber position
    | .escape, _ => .badEscape position
    | .regex, _ => .badRegex position
    | .character, ')' :: _ => .strayClose position
    | _, _ => near
  .around cause source position

/-- Read a text that consists of exactly one datum. -/
def readOne (source : String) : Except ReadError Datum :=
  let text := source.toList
  match readDatum (readingFuel text) 0 text with
  | .error failure => .error (failure.toReadError text)
  | .ok (datum, rest) =>
      match afterGap rest with
      | [] => .ok datum
      | trailing =>
          .error
            (.around (.trailing (String.ofList trailing)) text
              (Text.byteSize text - Text.byteSize trailing))

/-- Read all data of a text. -/
def readAll (source : String) : Except ReadError (List Datum) :=
  let text := source.toList
  match readForms (text.length + 1) text with
  | .error failure => .error (failure.toReadError text)
  | .ok forms => .ok forms

end SmallScheme.Reader
