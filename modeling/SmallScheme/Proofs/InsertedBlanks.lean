import SmallScheme.Proofs.JoinedTexts
import SmallScheme.Proofs.Reader.Meeting

namespace SmallScheme

/-!
# Blanks and comments put into a text

Main result.  Where the reader passes over a blank, it passes over more spaces, tabs and line ends
just as well, and over any block comment that no token runs into: the forms of the text stay what
they are.  Every other blank also ends a token, but it is not passed over, and a text with one more
of them between two data is not accepted.
-/

variable {engine : Regex.Engine}

namespace Reader

variable
  {scan : Scan}
  {blank extra : Char}
  {before after body : List Char}

/--
With this scan of what comes before it, the reader passes over the blank: nothing is open there, or
the blank ends a token, comes behind an unquote mark or ends the line of a comment.
-/
def Scan.passes (blank : Char) : Scan → Bool
  | .layout => Text.isLayout blank
  | .comma => Text.isLayout blank
  | .token => Text.isLayout blank
  | .line => blank = '\n'
  | _ => false

/-- A hash sign here does not belong to what comes before it. -/
def Scan.isBetween : Scan → Bool
  | .layout => true
  | .comma => true
  | _ => false

/-- The bars and hash signs of a block comment around a text that does not close it. -/
def IsBlockComment (comment : String) : Prop :=
  ∃ body, ¬['|', '#'] <:+: body ∧ comment = "#|" ++ String.ofList body ++ "|#"

/-! Blanks. -/

theorem isLayout_of_passes
    (passes : scan.passes blank = true) :
    Text.isLayout blank = true := by
  unfold Scan.passes at passes
  split at passes
  case h_4 =>
    obtain rfl := of_decide_eq_true passes
    rfl
  case h_5 => cases passes
  all_goals exact passes

theorem fits_of_isBlank
    (isBlank : Text.isBlank blank = true)
    (closed : scan.isOpen = false)
    (others : List Char) :
    scan.Fits (blank :: others) := by
  cases scan with
  | layout => trivial
  | line => trivial
  | token => exact ⟨blank, others, rfl, isBlank⟩
  | comma =>
      intro isAt
      obtain rfl : blank = '@' := Option.some.inj isAt
      exact absurd isBlank (by decide)
  | _ => cases closed

theorem closed_of_passes
    (passes : scan.passes blank = true) :
    scan.isOpen = false := by
  cases scan <;> first | rfl | cases passes

theorem skipGap_of_passes
    (passes : scan.passes blank = true)
    (others : List Char) :
    skipGap scan.gap (blank :: others) = afterGap others := by
  have isLayout := isLayout_of_passes passes
  cases scan with
  | line =>
      obtain rfl := of_decide_eq_true passes
      exact skipGap_newline others
  | layout => exact skipGap_layout isLayout others
  | comma => exact skipGap_layout isLayout others
  | token => exact skipGap_layout isLayout others
  | _ => cases passes

theorem gap_eq_layout
    (notLine : scan ≠ .line) :
    scan.gap = .layout := by
  cases scan <;> first | rfl | exact (notLine rfl).elim

/-- Another space, tab or line end before a blank that is passed over. -/
theorem skipGap_of_isLayout_of_passes
    (isLayout : Text.isLayout extra = true)
    (passes : scan.passes blank = true)
    (others : List Char) :
    skipGap scan.gap (extra :: blank :: others) = afterGap others := by
  by_cases inLine : scan = .line
  · subst inLine
    by_cases isEnd : extra = '\n'
    · rw [isEnd, Scan.gap, skipGap_newline]
      exact skipGap_layout (isLayout_of_passes passes) others
    · rw [Scan.gap, skipGap_line isEnd]
      exact skipGap_of_passes passes others
  · rw [gap_eq_layout inLine, skipGap_layout isLayout]
    exact skipGap_layout (isLayout_of_passes passes) others

/-! Comments. -/

theorem skipGap_comment
    (closesLast : ¬['|', '#'] <:+: body)
    (opening others : List Char) :
    skipGap (.block opening) (body ++ '|' :: '#' :: others) = afterGap others := by
  induction body with
  | nil => exact skipGap_close opening others
  | cons first further inductionHypothesis =>
      have goesOn : ∀ rest, first = '|' → further ++ '|' :: '#' :: others ≠ '#' :: rest := by
        rintro rest rfl same
        cases further with
        | nil => cases same
        | cons second last =>
            obtain rfl : second = '#' := (List.cons.inj same).1
            exact closesLast (List.infix_append [] _ last)
      rw [List.cons_append, skipGap_block opening goesOn]
      refine inductionHypothesis fun isInfix => closesLast ?_
      exact List.infix_cons isInfix

theorem afterGap_comment
    (closesLast : ¬['|', '#'] <:+: body)
    (others : List Char) :
    afterGap ('#' :: '|' :: (body ++ '|' :: '#' :: others)) = afterGap others := by
  rw [afterGap, skipGap_open]
  exact skipGap_comment closesLast _ others

theorem fits_comment
    (isBetween : scan.isBetween = true)
    (others : List Char) :
    scan.Fits ('#' :: others) ∧ scan.gap = .layout := by
  cases scan with
  | layout => exact ⟨trivial, rfl⟩
  | comma => exact ⟨nofun, rfl⟩
  | _ => cases isBetween

theorem isStuck_afterGap
    (isBlank : Text.isBlank extra = true)
    (notLayout : Text.isLayout extra = false)
    (others : List Char) :
    IsStuck (afterGap (extra :: others)) := by
  have isStuck : IsStuck (extra :: others) := ⟨extra, others, rfl, isBlank, notLayout⟩
  rw [isStuck.afterGap_eq]
  exact isStuck

/-! Two texts. -/

/-- The same forms are read from both texts, or neither is accepted. -/
def AreReadAlike [Regex.Engine] (one other : String) : Prop :=
  ∀ forms, readAll one = .ok forms ↔ readAll other = .ok forms

/-- No forms are read from the text. -/
def IsRefused [Regex.Engine] (source : String) : Prop :=
  ∀ forms, readAll source ≠ .ok forms

theorem areReadAlike_of_meets
    {one other : String}
    {text meeting first second : List Char}
    (isOne : one.toList = text ++ first)
    (isOther : other.toList = text ++ second)
    (meets : Meets meeting first second (Scan.layout.run text)) :
    AreReadAlike one other := by
  intro forms
  have alike := @formsOf_alike engine _ _ _ _ meets
  rw [readAll_eq_ok_iff, readAll_eq_ok_iff, ← formsOf, ← formsOf, isOne, isOther]
  generalize formsOf (text ++ first) = outcome at alike
  generalize formsOf (text ++ second) = outcomeOther at alike
  cases alike with
  | failed => exact iff_of_false (by rintro ⟨⟩) (by rintro ⟨⟩)
  | accepted _ => rfl

theorem isRefused_of_isStuck
    {source : String}
    {text rest : List Char}
    (isSource : source.toList = text ++ rest)
    (fits : (Scan.layout.run text).Fits rest)
    (isStuck : IsStuck (skipGap (Scan.layout.run text).gap rest)) :
    IsRefused source := by
  intro forms
  have alike := @formsOf_alike engine _ _ _ _ ⟨fits, fits, rfl, rfl⟩
  rw [Ne, readAll_eq_ok_iff, ← formsOf, isSource]
  generalize formsOf (text ++ rest) = outcome at alike
  cases alike with
  | failed => rintro ⟨⟩
  | accepted goesOn => exact (goesOn isStuck).elim

end Reader

open Reader

/--
Wherever the reader passes over a blank, spaces, tabs and line ends may be put in beside it, and so
may a block comment: behind the blank, or before it where no token and no line comment goes on.  The
same forms are read, or still none.  Any other blank that is put in keeps the text from being
accepted, unless it stands in a line comment.
-/
theorem blanks_and_comments_may_be_put_in
    {before : String}
    {blank : Char}
    (passes : (Scan.layout.run before.toList).passes blank = true)
    (after : String) :
    (∀ extra, Text.isLayout extra = true →
        AreReadAlike (before ++ blank.toString ++ after)
            (before ++ blank.toString ++ extra.toString ++ after) ∧
          AreReadAlike (before ++ blank.toString ++ after)
            (before ++ extra.toString ++ blank.toString ++ after)) ∧
      (∀ comment, IsBlockComment comment →
        AreReadAlike (before ++ blank.toString ++ after)
            (before ++ blank.toString ++ comment ++ after) ∧
          ((Scan.layout.run before.toList).isBetween = true →
            AreReadAlike (before ++ blank.toString ++ after)
              (before ++ comment ++ blank.toString ++ after))) ∧
      ∀ extra, Text.isBlank extra = true → Text.isLayout extra = false →
        IsRefused (before ++ blank.toString ++ extra.toString ++ after) ∧
          (Scan.layout.run before.toList ≠ .line →
            IsRefused (before ++ extra.toString ++ blank.toString ++ after)) := by
  have isLayout := isLayout_of_passes passes
  have closed := closed_of_passes passes
  have fitsBlank := fits_of_isBlank (Text.isBlank_of_isLayout isLayout) closed
  have skipsBlank := skipGap_of_passes passes
  have letters : (before ++ blank.toString ++ after).toList =
      before.toList ++ blank :: after.toList := by simp
  refine ⟨fun extra isExtra => ⟨?_, ?_⟩, ?_, fun extra isBlank notLayout => ⟨?_, ?_⟩⟩
  · have lettersMore : (before ++ blank.toString ++ extra.toString ++ after).toList =
        before.toList ++ blank :: extra :: after.toList := by simp
    refine areReadAlike_of_meets letters lettersMore
      ⟨fitsBlank _, fitsBlank _, skipsBlank _, ?_⟩
    rw [skipsBlank]
    exact skipGap_layout isExtra after.toList
  · have lettersMore : (before ++ extra.toString ++ blank.toString ++ after).toList =
        before.toList ++ extra :: blank :: after.toList := by simp
    have fitsExtra := fits_of_isBlank (Text.isBlank_of_isLayout isExtra) closed
    exact areReadAlike_of_meets letters lettersMore
      ⟨fitsBlank _, fitsExtra _, skipsBlank _, skipGap_of_isLayout_of_passes isExtra passes _⟩
  · rintro _ ⟨body, closesLast, rfl⟩
    have passesComment := afterGap_comment closesLast
    refine ⟨?_, fun isBetween => ?_⟩
    · have lettersMore :
          (before ++ blank.toString ++ ("#|" ++ String.ofList body ++ "|#") ++ after).toList =
            before.toList ++
              blank :: ('#' :: '|' :: (body ++ '|' :: '#' :: after.toList)) := by simp
      refine areReadAlike_of_meets letters lettersMore
        ⟨fitsBlank _, fitsBlank _, skipsBlank _, ?_⟩
      rw [skipsBlank]
      exact passesComment after.toList
    · have lettersMore :
          (before ++ ("#|" ++ String.ofList body ++ "|#") ++ blank.toString ++ after).toList =
            before.toList ++
              '#' :: '|' :: (body ++ '|' :: '#' :: blank :: after.toList) := by simp
      obtain ⟨fitsComment, sameGap⟩ := fits_comment isBetween _
      refine areReadAlike_of_meets letters lettersMore
        ⟨fitsBlank _, fitsComment, skipsBlank _, ?_⟩
      rw [sameGap]
      exact (passesComment (blank :: after.toList)).trans (skipGap_layout isLayout after.toList)
  · have lettersMore : (before ++ blank.toString ++ extra.toString ++ after).toList =
        before.toList ++ blank :: extra :: after.toList := by simp
    refine isRefused_of_isStuck lettersMore (fitsBlank _) ?_
    rw [skipsBlank]
    exact isStuck_afterGap isBlank notLayout after.toList
  · intro notLine
    have lettersMore : (before ++ extra.toString ++ blank.toString ++ after).toList =
        before.toList ++ extra :: blank :: after.toList := by simp
    have fitsExtra := fits_of_isBlank isBlank closed
    refine isRefused_of_isStuck lettersMore (fitsExtra _) ?_
    rw [gap_eq_layout notLine]
    exact isStuck_afterGap isBlank notLayout _

/-- Behind a token, with an unquote mark behind the blank. -/
theorem blanks_put_into_sample :
    (Scan.layout.run "`(a".toList).passes ' ' = true ∧
      @AreReadAlike .plain "`(a , b ; note\n)" "`(a \t, b ; note\n)" ∧
      @AreReadAlike .plain "`(a , b ; note\n)" "`(a #| ( |#, b ; note\n)" ∧
      @IsRefused .plain "`(a \u2003, b ; note\n)" := by
  have passes : (Scan.layout.run "`(a".toList).passes ' ' = true := by decide
  obtain ⟨blanks, comments, others⟩ :=
    @blanks_and_comments_may_be_put_in .plain _ _ passes ", b ; note\n)"
  have isComment : IsBlockComment "#| ( |#" := ⟨[' ', '(', ' '], by decide, by decide⟩
  exact ⟨passes, (blanks '\t' (by decide)).1, (comments _ isComment).1,
    (others '\u2003' (by decide) (by decide)).1⟩

/-- A no-break space ends a token, but no list goes on behind it. -/
theorem no_break_space_is_not_passed_over :
    ¬∀ (before after : String) (blank extra : Char) (forms : List Datum),
        (Scan.layout.run before.toList).passes blank = true →
        isDelimiter extra = true →
        Text.isBlank extra = true →
        @readAll .plain (before ++ blank.toString ++ after) = .ok forms →
        @readAll .plain (before ++ blank.toString ++ extra.toString ++ after) = .ok forms := by
  intro always
  have accepted : (@readAll .plain ("(a" ++ ' '.toString ++ "b)")).isOk := by decide +kernel
  cases outcome : @readAll .plain ("(a" ++ ' '.toString ++ "b)") with
  | error _ =>
      rw [outcome] at accepted
      cases accepted
  | ok forms =>
      have goesOn := always "(a" "b)" ' ' '\u00a0' forms (by decide) (by decide) (by decide) outcome
      have rejected :
          (@readAll .plain ("(a" ++ ' '.toString ++ '\u00a0'.toString ++ "b)")).isOk = false := by
        decide +kernel
      rw [goesOn] at rejected
      cases rejected

end SmallScheme
