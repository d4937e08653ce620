import SmallScheme.Text.CodeRange
import SmallScheme.Text.WordCharacter

namespace SmallScheme

/-!
# Plain patterns

The sample engine knows regular expressions over characters, with tests for the start of the text,
its end and word boundaries.  A pattern is an expression as it is written: it keeps its groups and
its repetition counts, and its meaning is the expression in which every repetition is spelled out.
How a pattern is read is told in `Regex.Reading`, how a text is searched in `Regex.Search`.
-/

/-- A class of characters that an escape stands for. -/
inductive CharacterClass
  | digit
  | word
  | space
  deriving Repr, DecidableEq

/-- One member of a set of characters. -/
inductive CharacterItem
  | range (low high : Char)
  | class (named : CharacterClass) (complement : Bool)
  deriving Repr, DecidableEq

/-- A set of characters, or the complement of one. -/
structure CharacterSet where
  items : List CharacterItem
  complement : Bool
  deriving Repr, DecidableEq

/-- A test on a place between two characters. -/
inductive Boundary
  | start
  | finish
  | word
  | notWord
  deriving Repr, DecidableEq

/-- A regular expression. -/
inductive Regex
  | nothing
  | empty
  | boundary (test : Boundary)
  | one (characters : CharacterSet)
  | sequence (first second : Regex)
  | choice (first second : Regex)
  | star (body : Regex)
  deriving Repr, DecidableEq

def CharacterClass.contains
    (character : Char) : CharacterClass → Bool
  | .digit => Text.isDecimalDigit character
  | .word => Text.isWordCharacter character
  | .space => Text.isBlank character

def CharacterItem.contains
    (character : Char) : CharacterItem → Bool
  | .range low high => low ≤ character && character ≤ high
  | .class named complement => named.contains character != complement

def CharacterSet.contains
    (characters : CharacterSet)
    (character : Char) : Bool :=
  characters.items.any (CharacterItem.contains character) != characters.complement

def CharacterSet.singleton (character : Char) : CharacterSet where
  items := [.range character character]
  complement := false

/-- Every character but the line feed. -/
def CharacterSet.visible : CharacterSet where
  items := [.range '\n' '\n']
  complement := true

/-- A place lies beside a word character. -/
def besideWord : Option Char → Bool
  | some character => Text.isWordCharacter character
  | none => false

/-- The test holds between the two neighbours, where an end of the text has no neighbour. -/
def Boundary.holds
    (previous next : Option Char) : Boundary → Bool
  | .start => previous.isNone
  | .finish => next.isNone
  | .word => besideWord previous != besideWord next
  | .notWord => besideWord previous == besideWord next

namespace Regex

/-- A sequence, simplified where one part is trivial. -/
def followedBy : Regex → Regex → Regex
  | .nothing, _ => .nothing
  | .empty, second => second
  | _, .nothing => .nothing
  | first, .empty => first
  | first, second => .sequence first second

/-- A choice, simplified where one part is trivial. -/
def orElse : Regex → Regex → Regex
  | .nothing, second => second
  | first, .nothing => first
  | first, second => if first = second then first else .choice first second

/-- So many copies in a row, by doubling; any fuel that is not below the count will do. -/
def powerWithin
    (body : Regex) : Nat → Nat → Regex
  | 0, _ => .empty
  | fuel + 1, count =>
      if count = 0 then
        .empty
      else
        let half := body.powerWithin fuel (count / 2)
        let even := half.followedBy half
        if count % 2 = 1 then body.followedBy even else even

/-- So many copies in a row. -/
def power
    (body : Regex)
    (count : Nat) : Regex :=
  body.powerWithin count count

/-- At most so many copies in a row. -/
def upTo
    (body : Regex)
    (count : Nat) : Regex :=
  (Regex.empty.orElse body).power count

/-- What a repetition mark allows: at least so many, and at most so many if bounded. -/
structure Repetition where
  least : Nat
  most : Option Nat
  deriving Repr, DecidableEq

/-- A regular expression as it is written. -/
inductive Pattern
  | empty
  | boundary (test : Boundary)
  /-- A single character, written alone, as a dot or as an escape. -/
  | one (characters : CharacterSet)
  /-- A set in brackets. -/
  | set (characters : CharacterSet)
  | group (body : Pattern)
  | repeated (body : Pattern) (repetition : Repetition)
  /-- A sequence; the second part is the rest of the same sequence. -/
  | both (first rest : Pattern)
  /-- A choice; the second part holds the other alternatives. -/
  | either (first others : Pattern)
  deriving Repr, DecidableEq

/-- A body that never reads a character need not be repeated more than once. -/
def Repetition.capped (repetition : Repetition) : Repetition where
  least := min repetition.least 1
  most := some (min (repetition.most.getD 1) 1)

/-- Repeat an expression. -/
def Repetition.apply
    (repetition : Repetition)
    (body : Regex) : Regex :=
  match repetition.most with
  | none => (body.power repetition.least).followedBy (.star body)
  | some most =>
      (body.power repetition.least).followedBy (body.upTo (most - repetition.least))

namespace Pattern

/-- Put a pattern in front of the rest of a sequence. -/
def before
    (first : Pattern) : Pattern → Pattern
  | .empty => first
  | rest => .both first rest

/-- A pattern that never reads a character. -/
def isHollow : Pattern → Bool
  | .empty => true
  | .boundary _ => true
  | .one _ => false
  | .set _ => false
  | .group body => body.isHollow
  | .repeated body repetition => body.isHollow || repetition.most = some 0
  | .both first rest => first.isHollow && rest.isHollow
  | .either first others => first.isHollow && others.isHollow

/-- The copies that a repetition of a body asks for. -/
def effective
    (body : Pattern)
    (repetition : Repetition) : Repetition :=
  if body.isHollow then repetition.capped else repetition

/-- The expression that a pattern stands for. -/
def denote : Pattern → Regex
  | .empty => .empty
  | .boundary test => .boundary test
  | .one characters => .one characters
  | .set characters => .one characters
  | .group body => body.denote
  | .repeated body repetition => (body.effective repetition).apply body.denote
  | .both first rest => first.denote.followedBy rest.denote
  | .either first others => first.denote.orElse others.denote

/-- The greatest count that braces may hold. -/
def countBound : Nat := Nat.pow 2 32 - 1

/-- How many tests the expression of a pattern may hold. -/
def testBound : Nat := Nat.pow 2 15

/-- How many tests of characters and places are left when every repetition is spelled out. -/
def tests : Pattern → Nat
  | .empty => 0
  | .boundary _ => 1
  | .one _ => 1
  | .set _ => 1
  | .group body => body.tests
  | .repeated body repetition =>
      let copies := body.effective repetition
      (copies.most.getD (copies.least + 1)) * body.tests
  | .both first rest => first.tests + rest.tests
  | .either first others => first.tests + others.tests

end Pattern

end Regex

end SmallScheme
