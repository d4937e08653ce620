import SmallScheme.Regex.Engine
import SmallScheme.Regex.Reading

namespace SmallScheme

/-!
# Searching a text

A search reads the text once.  It keeps the expression as a tree in which every leaf for one
character tells whether some attempt to match has just read its character there; reading the next
character moves these marks to the leaves that may come next.  An attempt may begin at every place,
and a match is found as soon as one of them can end.  A test looks at the characters on both sides
of a place, so the neighbouring characters are arguments throughout.
-/

/-- A regular expression during a search. -/
inductive SearchTree
  | nothing
  | empty
  | boundary (test : Boundary)
  /-- One character of a set; `reached` tells that an attempt has just read it here. -/
  | one (characters : CharacterSet) (reached : Bool)
  | sequence (first second : SearchTree)
  | choice (first second : SearchTree)
  | star (body : SearchTree)

/-- What attempts can do at a place without reading a character. -/
structure Passage where
  /-- An attempt that is about to enter may leave at once. -/
  crossed : Bool
  /-- An attempt that is inside may leave. -/
  left : Bool

namespace SearchTree

/-- The tree of an expression, before anything has been read. -/
def ofRegex : Regex → SearchTree
  | .nothing => .nothing
  | .empty => .empty
  | .boundary test => .boundary test
  | .one characters => .one characters false
  | .sequence first second => .sequence (ofRegex first) (ofRegex second)
  | .choice first second => .choice (ofRegex first) (ofRegex second)
  | .star body => .star (ofRegex body)

/-- What attempts can do at a place with these neighbours. -/
def passage
    (previous next : Option Char) : SearchTree → Passage
  | .nothing => ⟨false, false⟩
  | .empty => ⟨true, false⟩
  | .boundary test => ⟨test.holds previous next, false⟩
  | .one _ reached => ⟨false, reached⟩
  | .sequence first second =>
      let before := first.passage previous next
      let after := second.passage previous next
      ⟨before.crossed && after.crossed, before.left && after.crossed || after.left⟩
  | .choice first second =>
      let one := first.passage previous next
      let other := second.passage previous next
      ⟨one.crossed || other.crossed, one.left || other.left⟩
  | .star body => ⟨true, (body.passage previous next).left⟩

/-- Read a character; `entered` tells that an attempt may begin before it. -/
def read
    (previous : Option Char)
    (character : Char)
    (entered : Bool) : SearchTree → SearchTree
  | .nothing => .nothing
  | .empty => .empty
  | .boundary test => .boundary test
  | .one characters _ => .one characters (entered && characters.contains character)
  | .sequence first second =>
      let before := first.passage previous (some character)
      .sequence (first.read previous character entered)
        (second.read previous character (entered && before.crossed || before.left))
  | .choice first second =>
      .choice (first.read previous character entered) (second.read previous character entered)
  | .star body =>
      let around := body.passage previous (some character)
      .star (body.read previous character (entered || around.left))

/-- An attempt can end at a place with these neighbours. -/
def accepts
    (previous next : Option Char)
    (tree : SearchTree) : Bool :=
  let whole := tree.passage previous next
  whole.crossed || whole.left

/-- An attempt can end at some place of the text. -/
def search
    (previous : Option Char)
    (tree : SearchTree) : List Char → Bool
  | [] => tree.accepts previous none
  | character :: rest =>
      if tree.accepts previous (some character) then
        true
      else
        search (some character) (tree.read previous character true) rest

end SearchTree

/-- Some part of the text matches. -/
def Regex.occursIn
    (regex : Regex)
    (text : String) : Bool :=
  (SearchTree.ofRegex regex).search none text.toList

/-- The engine that knows plain patterns only. -/
@[reducible]
def Regex.Engine.plain : Regex.Engine where
  compiles pattern := (Regex.Pattern.ofText? pattern).isSome
  isMatch pattern text :=
    (Regex.Pattern.ofText? pattern).any fun parsed => parsed.denote.occursIn text

end SmallScheme
