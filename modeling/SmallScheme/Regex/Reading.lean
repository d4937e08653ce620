import SmallScheme.Decimal.Reading
import SmallScheme.Regex.Pattern

namespace SmallScheme.Regex.Pattern

/-!
# Reading a plain pattern

The written form of a pattern: characters that stand for themselves, `.`, anchors, groups, sets in
brackets, escapes, choices and repetitions.  A pattern is refused when a group or a set is left
open or closed twice, when a repetition has nothing to repeat or runs backwards, when an escape has
no meaning, and when it is too large to be spelled out.
-/

/-- Characters that stand for themselves after a backslash. -/
def isPunctuation (character : Char) : Bool :=
  character ≤ '\x7f' && !character.isAlphanum && character != '<' && character != '>'

/-- The control character that a letter stands for after a backslash. -/
def controlEscape? : Char → Option Char
  | 'n' => some '\n'
  | 't' => some '\t'
  | 'r' => some '\r'
  | 'f' => some '\x0c'
  | 'v' => some '\x0b'
  | 'a' => some '\x07'
  | _ => none

/-- The class that a letter stands for after a backslash; a capital is the complement. -/
def classEscape? : Char → Option CharacterItem
  | 'd' => some (.class .digit false)
  | 'D' => some (.class .digit true)
  | 'w' => some (.class .word false)
  | 'W' => some (.class .word true)
  | 's' => some (.class .space false)
  | 'S' => some (.class .space true)
  | _ => none

/-- The place test that a letter stands for after a backslash. -/
def boundaryEscape? : Char → Option Boundary
  | 'A' => some .start
  | 'z' => some .finish
  | 'b' => some .word
  | 'B' => some .notWord
  | _ => none

/-- The character with a code point, unless there is none. -/
def characterOf? (code : Nat) : Option Char :=
  if code.isValidChar then some (Char.ofNat code) else none

/-- The character that an escape stands for, and the text after it. -/
def escapedCharacter? : List Char → Option (Char × List Char)
  | 'x' :: high :: low :: rest => do
      let code ← Decimal.natural? 16 [high, low]
      return (← characterOf? code, rest)
  | character :: rest =>
      match controlEscape? character with
      | some control => some (control, rest)
      | none => if isPunctuation character then some (character, rest) else none
  | [] => none

/-- One end of a range in a set, or a class. -/
def setMember? : List Char → Option (CharacterItem × List Char)
  | '\\' :: escaped =>
      match escaped with
      | [] => none
      | letter :: rest =>
          match classEscape? letter with
          | some item => some (item, rest)
          | none =>
              (escapedCharacter? escaped).map fun (character, after) =>
                (.range character character, after)
  | '[' :: _ => none
  | character :: rest => some (.range character character, rest)
  | [] => none

/-- The range from one item to another, when both are single characters in order. -/
def rangeBetween? : CharacterItem → CharacterItem → Option CharacterItem
  | .range low _, .range high _ => if low ≤ high then some (.range low high) else none
  | _, _ => none

/-- The members of a set up to its closing bracket, which may come first as a member. -/
def setItems? : Nat → Bool → List Char → Option (List CharacterItem × List Char)
  | 0, _, _ => none
  | fuel + 1, leading, text =>
      match text with
      | [] => none
      | ']' :: rest =>
          if leading then do
            let (items, after) ← setItems? fuel false rest
            return (.range ']' ']' :: items, after)
          else
            some ([], rest)
      | _ => do
          let (first, afterFirst) ← setMember? text
          match afterFirst with
          | '-' :: ']' :: _ => do
              let (items, after) ← setItems? fuel false afterFirst
              return (first :: items, after)
          | '-' :: afterDash => do
              let (last, afterLast) ← setMember? afterDash
              let range ← rangeBetween? first last
              let (items, after) ← setItems? fuel false afterLast
              return (range :: items, after)
          | _ => do
              let (items, after) ← setItems? fuel false afterFirst
              return (first :: items, after)

/-- The hyphens that a set begins with, each of which is a member, and the text after them. -/
def leadingHyphens (text : List Char) : List CharacterItem × List Char :=
  let (hyphens, rest) := text.span fun character => character = '-'
  (hyphens.map fun hyphen => .range hyphen hyphen, rest)

/-- A set of characters, after its opening bracket. -/
def set? (text : List Char) : Option (CharacterSet × List Char) := do
  let (complement, members) :=
    match text with
    | '^' :: rest => (true, rest)
    | _ => (false, text)
  let (hyphens, others) := leadingHyphens members
  let (items, after) ← setItems? (others.length + 1) hyphens.isEmpty others
  return (⟨hyphens ++ items, complement⟩, after)

/-- A count in braces, with the blanks around it. -/
def count? (text : List Char) : Option (Nat × List Char) := do
  let (digits, rest) := Decimal.spanDigits (text.dropWhile Text.isBlank)
  let count ← Decimal.natural? 10 digits
  guard (count ≤ countBound)
  return (count, rest.dropWhile Text.isBlank)

/-- The counts in braces, after the opening brace. -/
def braces? (text : List Char) : Option (Repetition × List Char) := do
  let (least, afterLeast) ← count? text
  match afterLeast with
  | '\x7d' :: rest => return (⟨least, some least⟩, rest)
  | ',' :: '\x7d' :: rest => return (⟨least, none⟩, rest)
  | ',' :: afterComma => do
      let (most, afterMost) ← count? afterComma
      guard (least ≤ most)
      match afterMost with
      | '\x7d' :: rest => return (⟨least, some most⟩, rest)
      | _ => none
  | _ => none

/-- A repetition mark, if one comes next; `none` when braces are malformed. -/
def repetition? : List Char → Option (Option (Repetition × List Char))
  | '*' :: rest => some (some (⟨0, none⟩, rest))
  | '+' :: rest => some (some (⟨1, none⟩, rest))
  | '?' :: rest => some (some (⟨0, some 1⟩, rest))
  | '\x7b' :: rest => (braces? rest).map some
  | _ => some none

/-- Drop the mark that makes a repetition prefer fewer copies. -/
def dropReluctance : List Char → List Char
  | '?' :: rest => rest
  | rest => rest

/-- Apply all repetition marks that follow a pattern. -/
def repetitions? : Nat → Pattern → List Char → Option (Pattern × List Char)
  | 0, _, _ => none
  | fuel + 1, body, text =>
      match repetition? text with
      | none => none
      | some none => some (body, text)
      | some (some (repetition, rest)) =>
          repetitions? fuel (.repeated body repetition) (dropReluctance rest)

/-- A backslash escape outside a set, after the backslash. -/
def escape? : List Char → Option (Pattern × List Char)
  | [] => none
  | letter :: rest =>
      match classEscape? letter, boundaryEscape? letter with
      | some item, _ => some (.one ⟨[item], false⟩, rest)
      | none, some test => some (.boundary test, rest)
      | none, none =>
          (escapedCharacter? (letter :: rest)).map fun (character, after) =>
            (.one (.singleton character), after)

mutual

/-- Alternatives up to the end of the text or a closing parenthesis. -/
def choice? : Nat → List Char → Option (Pattern × List Char)
  | 0, _ => none
  | fuel + 1, text => do
      let (first, afterFirst) ← sequence? fuel text
      match afterFirst with
      | '|' :: rest => do
          let (others, after) ← choice? fuel rest
          return (.either first others, after)
      | _ => return (first, afterFirst)

/-- Repeated patterns one after the other. -/
def sequence? : Nat → List Char → Option (Pattern × List Char)
  | 0, _ => none
  | fuel + 1, text =>
      match text with
      | [] => some (.empty, [])
      | '|' :: _ => some (.empty, text)
      | ')' :: _ => some (.empty, text)
      | _ => do
          let (first, afterFirst) ← single? fuel text
          let (copies, afterMarks) ← repetitions? fuel first afterFirst
          let (others, after) ← sequence? fuel afterMarks
          return (copies.before others, after)

/-- One pattern without the repetition marks after it. -/
def single? : Nat → List Char → Option (Pattern × List Char)
  | 0, _ => none
  | fuel + 1, text =>
      match text with
      | [] => none
      | '*' :: _ => none
      | '+' :: _ => none
      | '?' :: _ => none
      | '\x7b' :: _ => none
      | '.' :: rest => some (.one .visible, rest)
      | '^' :: rest => some (.boundary .start, rest)
      | '$' :: rest => some (.boundary .finish, rest)
      | '[' :: rest => (set? rest).map fun (characters, after) => (.set characters, after)
      | '\\' :: rest => escape? rest
      | '(' :: '?' :: ':' :: rest => group? fuel rest
      | '(' :: rest => group? fuel rest
      | character :: rest => some (.one (.singleton character), rest)

/-- The inside of a group and its closing parenthesis. -/
def group? : Nat → List Char → Option (Pattern × List Char)
  | 0, _ => none
  | fuel + 1, text => do
      let (body, afterBody) ← choice? fuel text
      match afterBody with
      | ')' :: rest => return (.group body, rest)
      | _ => none

end

/-- The pattern that a text writes, unless the text is malformed or the pattern too large. -/
def ofText? (text : String) : Option Pattern := do
  let characters := text.toList
  let (pattern, rest) ← choice? (4 * characters.length + 4) characters
  guard rest.isEmpty
  guard (pattern.tests ≤ testBound)
  return pattern

end SmallScheme.Regex.Pattern
