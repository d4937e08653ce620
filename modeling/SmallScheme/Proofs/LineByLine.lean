import Mathlib.Tactic.SplitIfs
import SmallScheme.Proofs.Reader.Forms
import SmallScheme.Regex.Search

namespace SmallScheme

/-!
# Programs entered line by line

Main result.  The lines of a program can be entered one after the other, for up to the end of any
line the reader has either read everything or it asks for more text, whatever is open there.  Only a
block comment that goes over the end of a line is taken for bad syntax in between.
-/

variable {engine : Regex.Engine}

namespace Reader

/-- More lines may follow: everything is read, or the text is incomplete. -/
def mayGoOn : Except ReadError (List Datum) → Bool
  | .ok _ => true
  | .error error => error.isIncomplete

theorem mayGoOn_iff_isAtEnd
    (source : List Char)
    (failure : Failure) :
    mayGoOn (concludeAll source (.error failure)) = true ↔ failure.IsAtEnd := by
  change decide ((failure.toReadError source).kind = .incomplete) = true ↔ _
  rw [decide_eq_true_iff, kind_toReadError, Failure.IsAtEnd]
  split_ifs with tooDeep atEnd
  · exact iff_of_false nofun fun isAtEnd => isAtEnd.1 tooDeep
  · exact iff_of_true rfl ⟨tooDeep, atEnd⟩
  · exact iff_of_false nofun fun isAtEnd => atEnd isAtEnd.2

theorem kind_of_not_isAtEnd
    {failure : Failure}
    (notAtEnd : ¬failure.IsAtEnd)
    (source : List Char) :
    (failure.toReadError source).kind = .invalidSyntax ∨
      (failure.toReadError source).kind = .tooDeeplyNested := by
  rw [kind_toReadError]
  split_ifs with tooDeep atEnd
  · exact .inr rfl
  · exact (notAtEnd ⟨tooDeep, atEnd⟩).elim
  · exact .inl rfl

end Reader

open Reader

/--
Up to the end of any line of a program that is accepted, the reader accepts what is there or reports
it as incomplete exactly if no block comment is open at the line end.  If one is, it reports bad
syntax or too deep nesting.
-/
theorem lines_of_accepted_program
    (before after : String)
    (accepted : (readAll (before ++ "\n" ++ after)).isOk) :
    (mayGoOn (readAll before) = true ↔ breaksOffInBlock before = false) ∧
      (breaksOffInBlock before = true →
        ∃ error,
          readAll before = .error error ∧
            (error.kind = .invalidSyntax ∨ error.kind = .tooDeeplyNested)) := by
  have goesOn := @formsOf_append engine after.toList before.toList
  rw [readAll_eq_formsOf, toList_joined] at accepted
  rw [readAll_eq_formsOf, breaksOffInBlock]
  generalize formsOf (before.toList ++ '\n' :: after.toList) = extended at accepted goesOn
  generalize formsOf before.toList = outcome at goesOn
  cases goesOn with
  | accepted leaves =>
      exact ⟨iff_of_true rfl leaves, fun isOpen => nomatch leaves.symm.trans isOpen⟩
  | atEnd atEnd leaves =>
      exact ⟨iff_of_true ((mayGoOn_iff_isAtEnd _ _).mpr atEnd) leaves,
        fun isOpen => nomatch leaves.symm.trans isOpen⟩
  | @inBlock failure _ notAtEnd leaves =>
      have reported := kind_of_not_isAtEnd notAtEnd before.toList
      refine ⟨iff_of_false ?_ ?_, fun _ => ⟨_, rfl, reported⟩⟩
      · exact fun goesOn => notAtEnd ((mayGoOn_iff_isAtEnd _ _).mp goesOn)
      · exact fun notOpen => nomatch leaves.symm.trans notOpen
  | rejected notAtEnd => cases accepted

/-- Within a text and after the first character of a token nothing opens a block comment. -/
example :
    breaksOffInBlock "'(a #| (b |# . \"#|" = false ∧
      breaksOffInBlock "#\\#|x \"\\\"\" #|#" = true := by
  decide +kernel

/-- A line end inside a text in a vector, one behind a dot and one in a block comment. -/
theorem lines_of_sample :
    mayGoOn (@readAll .plain "`#(1 ;one\n \"two") = true ∧
      mayGoOn (@readAll .plain "`#(1 ;one\n \"two\nlines\" (a .") = true ∧
      mayGoOn (@readAll .plain "`#(1 ;one\n \"two\nlines\" (a .\n b) #|") = false := by
  have first := @lines_of_accepted_program .plain "`#(1 ;one\n \"two"
    "lines\" (a .\n b) #|\n |# ,@c)"
    (by decide +kernel)
  have second := @lines_of_accepted_program .plain "`#(1 ;one\n \"two\nlines\" (a ."
    " b) #|\n |# ,@c)"
    (by decide +kernel)
  have third := @lines_of_accepted_program .plain "`#(1 ;one\n \"two\nlines\" (a .\n b) #|"
    " |# ,@c)"
    (by decide +kernel)
  refine ⟨first.1.mpr (by decide +kernel), second.1.mpr (by decide +kernel), ?_⟩
  rw [Bool.eq_false_iff, Ne, third.1]
  decide +kernel

/-- A line that opens a block comment is taken for bad syntax, though the next one closes it. -/
theorem open_block_comment_is_bad_syntax :
    ¬∀ before after : String,
        (@readAll .plain (before ++ "\n" ++ after)).isOk →
            mayGoOn (@readAll .plain before) = true := by
  intro always
  have goesOn := always "(a #| note" "end |# b)" (by decide +kernel)
  exact absurd goesOn (by decide +kernel)

end SmallScheme
