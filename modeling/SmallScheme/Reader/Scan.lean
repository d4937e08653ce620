import SmallScheme.Reader.Token

namespace SmallScheme.Reader

/-!
# What a text breaks off in

One pass over a text, a character at a time, tells what its last characters belong to.  Nothing is
read in this pass: it knows neither data nor how they are nested.
-/

/-- What the last characters of a text belong to. -/
inductive Scan
  | layout
  | line
  | comma
  | hash
  | token
  /-- Before the first character of a character literal. -/
  | letter
  | text
  | textEscape
  | pattern
  | patternEscape
  | block
  /-- Within a block comment, with a bar as the last character. -/
  | bar
  deriving Repr, DecidableEq

namespace Scan

/-- A character where nothing is open. -/
def start (character : Char) : Scan :=
  if character = ';' then .line
  else if character = '\x22' then .text
  else if character = '#' then .hash
  else if character = ',' then .comma
  else if isDelimiter character then .layout
  else .token

/-- A character after a token or a part of one. -/
def afterToken (character : Char) : Scan :=
  if isDelimiter character then start character else .token

/-- One character more. -/
def step : Scan → Char → Scan
  | .layout, character => start character
  | .line, character => if character = '\n' then .layout else .line
  | .comma, character => if character = '@' then .layout else start character
  | .hash, character =>
      if character = '|' then .block
      else if character = '/' then .pattern
      else if character = '\\' then .letter
      else afterToken character
  | .token, character => afterToken character
  | .letter, _ => .token
  | .text, character =>
      if character = '\x22' then .layout
      else if character = '\\' then .textEscape
      else .text
  | .textEscape, _ => .text
  | .pattern, character =>
      if character = '/' then .layout
      else if character = '\\' then .patternEscape
      else .pattern
  | .patternEscape, _ => .pattern
  | .block, character => if character = '|' then .bar else .block
  | .bar, character =>
      if character = '#' then .layout
      else if character = '|' then .bar
      else .block

/-- What the last characters belong to after a text. -/
def run (scan : Scan) (text : List Char) : Scan :=
  text.foldl step scan

/-- Within a block comment. -/
def isBlock : Scan → Bool
  | .block => true
  | .bar => true
  | _ => false

/-- A block comment is open after a text. -/
def leavesBlock (scan : Scan) (text : List Char) : Bool :=
  (scan.run text).isBlock

@[simp]
theorem leavesBlock_nil
    (scan : Scan) :
    scan.leavesBlock [] = scan.isBlock :=
  rfl

@[simp]
theorem leavesBlock_cons
    (scan : Scan)
    (character : Char)
    (text : List Char) :
    scan.leavesBlock (character :: text) = (scan.step character).leavesBlock text :=
  rfl

end Scan

/-- A text breaks off inside a block comment that is still open. -/
def breaksOffInBlock (text : String) : Bool :=
  Scan.layout.leavesBlock text.toList

end SmallScheme.Reader
