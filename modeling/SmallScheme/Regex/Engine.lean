namespace SmallScheme

/-!
# Regular expressions

The language has literals for regular expressions and one function that matches a text, but leaves
their syntax and their meaning to an engine.  The reader asks the engine whether it compiles a
pattern, and keeps the text of the pattern; nothing else is known of an engine.
-/

/-- An engine for regular expressions, which are known by the text of their pattern. -/
class Regex.Engine where
  /-- The pattern is one that the engine compiles. -/
  compiles : String → Bool
  /-- The pattern, which the engine compiles, matches somewhere in the text. -/
  isMatch : String → String → Bool

end SmallScheme
