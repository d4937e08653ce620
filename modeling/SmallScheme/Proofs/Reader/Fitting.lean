import SmallScheme.Proofs.Reader.Forms

namespace SmallScheme.Reader

/-!
# What fits behind a text

A text may end where nothing is open, or behind a token, an unquote mark or in a line comment.  What
comes next there fits if it does not become a part of it.  Then every part of the reader that has no
data in it ends as it does without the rest of the text, and leaves that rest.
-/

variable
  {engine : Regex.Engine}
  {First Answer : Type}
  {text rest : List Char}

/-! ## What may follow -/

namespace Scan

/-- A scan takes one character after the other. -/
theorem run_cons
    (scan : Scan)
    (character : Char)
    (text : List Char) :
    scan.run (character :: text) = (scan.step character).run text :=
  rfl

/-- What comes next belongs to something that has been begun. -/
def isOpen : Scan → Bool
  | .layout => false
  | .line => false
  | .comma => false
  | .token => false
  | _ => true

/--
The text may follow without becoming a part of what comes before it: nothing is open, an unquote
mark stays what it is, and a token ends.
-/
def Fits (more : List Char) : Scan → Prop
  | .layout => True
  | .line => True
  | .comma => more.head? ≠ some '@'
  | .token => ∃ blank others, more = blank :: others ∧ Text.isBlank blank = true
  | _ => False

/-- What is passed over here. -/
def gap : Scan → Gap
  | .line => .line
  | _ => .layout

/-- Nothing else has happened than that a token or a mark has been read. -/
def Yields (scan left : Scan) : Prop :=
  left = scan ∨ left = .layout ∧ (scan = .comma ∨ scan = .token)

theorem Yields.rfl
    {scan : Scan} :
    scan.Yields scan :=
  .inl (Eq.refl scan)

/-- What comes of what has come of a scan has come of it. -/
theorem Yields.trans
    {scan middle left : Scan}
    (first : scan.Yields middle)
    (second : middle.Yields left) :
    scan.Yields left := by
  obtain rfl | ⟨rfl, isMark⟩ := first
  · exact second
  · obtain rfl | ⟨rfl, _⟩ := second <;> exact .inr ⟨Eq.refl _, isMark⟩

/-- What fits a scan fits what comes of it. -/
theorem Fits.of_yields
    {scan left : Scan}
    {more : List Char}
    (fits : scan.Fits more)
    (yields : scan.Yields left) :
    left.Fits more := by
  obtain rfl | ⟨rfl, _⟩ := yields
  · exact fits
  · trivial

/-- A scan that only loses its token is in the same gap. -/
theorem Yields.gap_eq
    {scan left : Scan}
    (yields : scan.Yields left) :
    left.gap = scan.gap := by
  obtain rfl | ⟨rfl, rfl | rfl⟩ := yields <;> rfl

/-- After a token and all that follows it, the scan is that of what follows it. -/
theorem yields_token
    (text : List Char) :
    (Scan.token.run text).Yields (Scan.layout.run (spanToken text).2) := by
  induction text with
  | nil => exact .inr ⟨Eq.refl _, .inr (Eq.refl _)⟩
  | cons first others inductionHypothesis =>
      simp only [spanToken, List.span_eq_takeWhile_dropWhile] at inductionHypothesis ⊢
      cases delimits : isDelimiter first with
      | false => simpa [delimits, run_cons, step, afterToken] using inductionHypothesis
      | true => simp [delimits, run_cons, step, afterToken, Yields]

end Scan

open Scan

/-- Blanks end tokens. -/
theorem isDelimiter_of_isBlank
    {character : Char}
    (isBlank : Text.isBlank character = true) :
    isDelimiter character = true := by
  simp [isDelimiter, isBlank]

/-- A token is the same with whatever may follow. -/
theorem spanToken_append_of_fits
    {more : List Char}
    (fits : (Scan.token.run text).Fits more) :
    spanToken (text ++ more) = ((spanToken text).1, (spanToken text).2 ++ more) := by
  induction text with
  | nil =>
      obtain ⟨blank, others, rfl, isBlank⟩ := fits
      simp [spanToken, List.span_eq_takeWhile_dropWhile, isDelimiter_of_isBlank isBlank]
  | cons first others inductionHypothesis =>
      simp only [spanToken, List.span_eq_takeWhile_dropWhile, Prod.mk.injEq, List.cons_append]
        at inductionHypothesis ⊢
      cases delimits : isDelimiter first with
      | false =>
          have same := inductionHypothesis (by
            simpa [run_cons, step, afterToken, delimits] using fits)
          simp [delimits, same]
      | true => simp [delimits]

/-! ## What has no data in it -/

/-- How a part of the reader ends on a text, and how it ends if something fitting follows. -/
inductive Settled
    (more : List Char)
    (scan : Scan) :
    Except Failure (Answer × List Char) → Except Failure (Answer × List Char) → Prop
  | rejected {failure other : Failure} :
      Settled more scan (.error failure) (.error other)
  | accepted {answer : Answer} {rest : List Char} :
      scan.Yields (Scan.layout.run rest) →
      Settled more scan (.ok (answer, rest)) (.ok (answer, rest ++ more))

variable {more : List Char}

namespace Settled

variable {scan left : Scan}

/-- What is settled after less is settled. -/
theorem of_yields
    {outcome longer : Except Failure (Answer × List Char)}
    (yields : scan.Yields left)
    (settled : Settled more left outcome longer) :
    Settled more scan outcome longer := by
  cases settled with
  | rejected => exact .rejected
  | accepted further => exact .accepted (yields.trans further)

/-- Readings that follow one another are settled if each of them is. -/
theorem bind
    {outcome longer : Except Failure (First × List Char)}
    {next nextLonger : First × List Char → Except Failure (Answer × List Char)}
    (settled : Settled more scan outcome longer)
    (thenSettled :
      ∀ answer rest,
        Settled more (Scan.layout.run rest) (next (answer, rest))
          (nextLonger (answer, rest ++ more))) :
    Settled more scan (outcome >>= next) (longer >>= nextLonger) := by
  cases settled with
  | rejected => exact .rejected
  | accepted yields => exact (thenSettled _ _).of_yields yields

/-- What is made of an answer does not matter. -/
theorem map
    {outcome longer : Except Failure (First × List Char)}
    (make : First → Answer)
    (settled : Settled more scan outcome longer) :
    Settled more scan
      (outcome >>= fun found => return (make found.1, found.2))
      (longer >>= fun found => return (make found.1, found.2)) :=
  settled.bind fun _ _ => .accepted .rfl

end Settled

/-- A text that is closed is settled, and an open one is at its end. -/
theorem readText_settled
    {joining : Bool}
    (fits : (Scan.text.run text).Fits more) :
    Settled more (Scan.text.run text) (readText joining text)
      (readText joining (text ++ more)) := by
  fun_induction readText joining text with
  | case1 => exact fits.elim
  | case2 joining character rest isJoined inductionHypothesis =>
      rw [List.cons_append, readText_joined isJoined]
      simp only [Bool.and_eq_true, Bool.or_eq_true, decide_eq_true_eq] at isJoined
      rcases isJoined.2 with rfl | rfl <;> exact inductionHypothesis fits
  | case3 joining rest notJoined =>
      rw [List.cons_append, readText_close]
      exact .accepted .rfl
  | case4 => exact fits.elim
  | case5 joining rest notJoined notQuote inductionHypothesis =>
      rw [List.cons_append, List.cons_append, readText_continued]
      exact inductionHypothesis fits
  | case6 joining letter rest notNewline escaped means notJoined notQuote inductionHypothesis =>
      rw [List.cons_append, List.cons_append, readText_escape joining notNewline, means]
      exact (inductionHypothesis fits).map (escaped :: ·)
  | case7 joining letter rest notNewline meansNothing notJoined notQuote =>
      rw [List.cons_append, List.cons_append, readText_escape joining notNewline, meansNothing]
      exact .rejected
  | case8 joining character rest notJoined notQuote notBackslash inductionHypothesis =>
      rw [List.cons_append, readText_plain notJoined notQuote notBackslash]
      rw [run_cons, step, if_neg notQuote, if_neg notBackslash] at fits ⊢
      exact (inductionHypothesis fits).map (character :: ·)

/-- A pattern that is closed is settled, and an open one is at its end. -/
theorem readPattern_settled
    (fits : (Scan.pattern.run text).Fits more) :
    Settled more (Scan.pattern.run text) (readPattern text) (readPattern (text ++ more)) := by
  fun_induction readPattern text with
  | case1 => exact fits.elim
  | case2 rest =>
      rw [List.cons_append, readPattern]
      exact .accepted .rfl
  | case3 => exact fits.elim
  | case4 character rest inductionHypothesis =>
      rw [List.cons_append, List.cons_append, readPattern]
      have settled := (inductionHypothesis fits).map fun characters =>
        if character = '/' then '/' :: characters else '\\' :: character :: characters
      split_ifs at settled ⊢ with isSlash <;> exact settled
  | case5 character rest notSlash notLone notEscaped inductionHypothesis =>
      have notBackslash : character ≠ '\\' := by
        intro isBackslash
        cases rest with
        | nil => exact notLone isBackslash rfl
        | cons first others => exact notEscaped first others isBackslash rfl
      rw [List.cons_append, readPattern_plain notSlash notBackslash]
      rw [run_cons, step, if_neg notSlash, if_neg notBackslash] at fits ⊢
      exact (inductionHypothesis fits).map (character :: ·)

/-- The datum of a text is settled where the text is. -/
theorem readTextDatum_settled
    (fits : (Scan.text.run text).Fits more) :
    Settled more (Scan.text.run text) (readTextDatum text) (readTextDatum (text ++ more)) :=
  (readText_settled fits).map fun characters => Datum.text (String.ofList characters)

/-- A regular expression is settled where its pattern is. -/
theorem readRegex_settled
    (fits : (Scan.pattern.run text).Fits more) :
    Settled more (Scan.pattern.run text) (readRegex text) (readRegex (text ++ more)) := by
  refine (readPattern_settled fits).bind fun characters rest => ?_
  dsimp only
  split
  · exact .accepted .rfl
  · exact .rejected

/-- A named character is settled if no letter of its name can follow. -/
theorem readCharacter_settled
    (fits : (Scan.letter.run text).Fits more) :
    Settled more (Scan.letter.run text) (readCharacter text) (readCharacter (text ++ more)) := by
  cases text with
  | nil => exact fits.elim
  | cons first others =>
      have yields :
          (Scan.letter.run (first :: others)).Yields (Scan.layout.run (spanToken others).2) :=
        yields_token others
      rw [run_cons, step] at fits
      simp only [readCharacter, List.cons_append, spanToken_append_of_fits fits]
      split
      · exact .accepted yields
      · split
        · exact .accepted yields
        · exact .rejected

/-- Behind a hash most letters name no constant. -/
theorem readConstant_eq_error
    {letter : Char}
    (notConstant : letter ≠ 't' ∧ letter ≠ 'f' ∧ letter ≠ 'x' ∧ letter ≠ 'X')
    (text : List Char) :
    readConstant ('#' :: letter :: text) = .error ⟨.form, '#' :: letter :: text⟩ := by
  cases delimits : isDelimiter letter <;>
    simp [readConstant, spanToken, List.span_eq_takeWhile_dropWhile, delimits, notConstant]

/-- A constant is settled if no letter of its name can follow. -/
theorem readConstant_settled
    (fits : (Scan.hash.run text).Fits more) :
    Settled more (Scan.hash.run text) (readConstant ('#' :: text))
      (readConstant ('#' :: (text ++ more))) := by
  cases text with
  | nil => exact fits.elim
  | cons letter others =>
      by_cases notConstant : letter ≠ 't' ∧ letter ≠ 'f' ∧ letter ≠ 'x' ∧ letter ≠ 'X'
      · rw [List.cons_append, readConstant_eq_error notConstant, readConstant_eq_error notConstant]
        exact .rejected
      · have isToken : Scan.hash.run (letter :: others) = Scan.token.run (letter :: others) := by
          simp only [not_and_or, not_not] at notConstant
          rcases notConstant with rfl | rfl | rfl | rfl <;> rfl
        have yields := yields_token (letter :: others)
        rw [isToken] at fits ⊢
        simp only [readConstant, List.drop_succ_cons, List.drop_zero,
          spanToken_append_of_fits fits]
        split
        case h_5 =>
          split_ifs
          · split
            · exact .accepted yields
            · exact .rejected
          · exact .rejected
        case h_6 => exact .rejected
        all_goals exact .accepted yields

/-- An atom is settled if no character of its token can follow. -/
theorem readAtom_settled
    (nonempty : text ≠ [])
    (notHash : text.head? ≠ some '#')
    (fits : (Scan.layout.run text).Fits more) :
    Settled more (Scan.layout.run text) (readAtom text) (readAtom (text ++ more)) := by
  obtain ⟨first, others, rfl⟩ := List.exists_cons_of_ne_nil nonempty
  cases delimits : isDelimiter first with
  | true =>
      simp only [readAtom, spanToken, List.span_eq_takeWhile_dropWhile, List.cons_append,
        List.takeWhile_cons, delimits]
      exact .rejected
  | false =>
      have notHash : first ≠ '#' := fun isHash => notHash (by rw [isHash]; rfl)
      have isToken : Scan.layout.run (first :: others) = Scan.token.run (first :: others) := by
        have starts : Scan.start first = .token := by
          unfold Scan.start
          split_ifs <;> simp_all [isDelimiter]
        rw [run_cons, run_cons, step, step, afterToken, starts, delimits]
        rfl
      have yields := yields_token (first :: others)
      rw [isToken] at fits ⊢
      simp only [readAtom, spanToken_append_of_fits fits]
      split
      · exact .rejected
      · split
        · exact .accepted yields
        · exact .rejected
        · exact .accepted yields

/-! ## What a text opens with, and what comes next in it -/

/-- What does not start with a letter does not start with it if it goes on. -/
theorem not_starts_letter
    {letter : Char}
    (nonempty : text ≠ [])
    (notStarts : ∀ others, text = letter :: others → False)
    (others : List Char) :
    ¬text ++ more = letter :: others := by
  obtain ⟨first, further, rfl⟩ := List.exists_cons_of_ne_nil nonempty
  intro same
  exact notStarts further (by rw [(List.cons.inj same).1])

/-- The opening of a bytevector is not completed by a blank. -/
theorem not_starts_bytevector
    (fits : (Scan.hash.run text).Fits more)
    (notStarts : ∀ others, text = 'u' :: '8' :: '(' :: others → False)
    (others : List Char) :
    ¬text ++ more = 'u' :: '8' :: '(' :: others := by
  intro same
  match text with
  | [] => exact fits.elim
  | [first] =>
      simp only [List.cons_append, List.nil_append, List.cons.injEq] at same
      obtain ⟨rfl, same⟩ := same
      obtain ⟨blank, further, isMore, isBlank⟩ := fits
      obtain rfl : blank = '8' := (List.cons.inj (isMore.symm.trans same)).1
      exact absurd isBlank (by decide)
  | [first, second] =>
      simp only [List.cons_append, List.nil_append, List.cons.injEq] at same
      obtain ⟨rfl, rfl, same⟩ := same
      obtain ⟨blank, further, isMore, isBlank⟩ := fits
      obtain rfl : blank = '(' := (List.cons.inj (isMore.symm.trans same)).1
      exact absurd isBlank (by decide)
  | first :: second :: third :: further =>
      simp only [List.cons_append, List.cons.injEq] at same
      obtain ⟨rfl, rfl, rfl, _⟩ := same
      exact notStarts further rfl

/-- What opens a datum is settled if the text behind fits. -/
theorem opening_append_of_fits
    (nonempty : text ≠ [])
    (fits : (Scan.layout.run text).Fits more) :
    opening (text ++ more) = (opening text).extend more := by
  fun_cases opening text with
  | case4 rest notSplicing =>
      refine opening.eq_4 _ fun others same => ?_
      cases rest with
      | nil =>
          have isMore : more = '@' :: others := same
          exact fits (by rw [isMore]; rfl)
      | cons first further =>
          exact not_starts_letter (List.cons_ne_nil _ _) notSplicing others same
  | case11 rest notVector notBytevector notRegex notCharacter =>
      have goesOn : rest ≠ [] := by
        rintro rfl
        exact fits.elim
      exact opening.eq_11 _ (not_starts_letter goesOn notVector)
        (not_starts_bytevector fits notBytevector) (not_starts_letter goesOn notRegex)
        (not_starts_letter goesOn notCharacter)
  | case12 _ notQuote notQuasiquote notSplicing notUnquote notList notText notVector notBytevector
      notRegex notCharacter notHash =>
      exact opening.eq_12 _ (not_starts_letter nonempty notQuote)
        (not_starts_letter nonempty notQuasiquote)
        (fun others => not_starts_letter nonempty notUnquote ('@' :: others))
        (not_starts_letter nonempty notUnquote) (not_starts_letter nonempty notList)
        (not_starts_letter nonempty notText)
        (fun others => not_starts_letter nonempty notHash ('(' :: others))
        (fun others => not_starts_letter nonempty notHash ('u' :: '8' :: '(' :: others))
        (fun others => not_starts_letter nonempty notHash ('/' :: others))
        (fun others => not_starts_letter nonempty notHash ('\\' :: others))
        (not_starts_letter nonempty notHash)
  | _ => rfl

/-- What the scan has come to is what it comes to behind the opening. -/
theorem yields_opening
    (text : List Char) :
    (Scan.layout.run text).Yields ((opening text).scan.run (opening text).rest) := by
  fun_cases opening text with
  | case4 rest notSplicing =>
      cases rest with
      | nil => exact .inr ⟨rfl, .inl rfl⟩
      | cons first others =>
          have notAt : first ≠ '@' := fun isAt => notSplicing others (by rw [isAt])
          refine .inl ?_
          change (Scan.start first).run others = (Scan.step .comma first).run others
          rw [step, if_neg notAt]
  | _ => exact .inl rfl

/-- Text behind does not close a list before an item of it. -/
theorem upcoming_append_of_ne_nil
    (nonempty : text ≠ [])
    (more : List Char) :
    (∃ rest, text = ')' :: rest) ∨ upcoming (text ++ more) = .item (text ++ more) := by
  obtain ⟨isEmpty, _⟩ | ⟨rest, isClose, _⟩ | ⟨_, notClose, _⟩ := upcoming_spec text
  · exact (nonempty isEmpty).elim
  · exact .inl ⟨rest, isClose⟩
  · exact .inr (upcoming_eq_item (by simp [nonempty]) (not_starts_letter nonempty notClose))

/-- Where a token ends is settled if the text behind fits. -/
theorem endsToken_append_of_fits
    (fits : (Scan.token.run text).Fits more) :
    endsToken (text ++ more) = endsToken text := by
  cases text with
  | cons first others => rfl
  | nil =>
      obtain ⟨blank, others, rfl, isBlank⟩ := fits
      exact isDelimiter_of_isBlank isBlank

/-- A dot that stands by itself goes on doing so. -/
theorem afterDot?_append_of_fits
    (nonempty : text ≠ [])
    (fits : (Scan.layout.run text).Fits more) :
    afterDot? (text ++ more) = (afterDot? text).map (· ++ more) := by
  fun_cases afterDot? text with
  | case1 rest ends =>
      rw [List.cons_append, afterDot?, endsToken_append_of_fits fits, if_pos ends, Option.map_some]
  | case2 rest goesOn =>
      rw [List.cons_append, afterDot?, endsToken_append_of_fits fits, if_neg goesOn,
        Option.map_none]
  | case3 _ notDot =>
      exact afterDot?.eq_2 _ (not_starts_letter nonempty notDot)

/-- A dot by itself leaves the scan in layout. -/
theorem yields_dot
    (ends : endsToken rest = true) :
    (Scan.layout.run ('.' :: rest)).Yields (Scan.layout.run rest) := by
  have noToken : spanToken rest = ([], rest) := spanToken_append [] nofun ends
  have yields := yields_token rest
  rw [noToken] at yields
  exact yields

/-! ## Blanks and comments -/

/-- What is left behind a gap, and what is left if something fitting follows. -/
inductive Clears (more : List Char) (scan : Scan) : List Char → List Char → Prop
  | stops {rest : List Char} :
      rest ≠ [] →
      Scan.layout.run rest = scan →
      Clears more scan rest (rest ++ more)
  | reaches :
      Clears more scan [] (skipGap scan.gap more)

/-- A gap is passed over alike, or it goes on into the text behind. -/
theorem skipGap_clears
    (gap : Gap)
    (text : List Char)
    (fits : (gap.scan.run text).Fits more)
    (opening : List Char) :
    Clears more (gap.scan.run text) (skipGap gap text)
      (skipGap (gap.reopen opening) (text ++ more)) := by
  fun_induction skipGap gap text generalizing opening with
  | case1 => exact .reaches
  | case2 character rest isLayout inductionHypothesis =>
      rw [Gap.scan, run_cons, step, start_of_isLayout isLayout] at fits ⊢
      rw [Gap.reopen, List.cons_append, skipGap_layout isLayout]
      exact inductionHypothesis fits opening
  | case3 rest _ inductionHypothesis =>
      rw [Gap.reopen, List.cons_append, skipGap_semicolon]
      exact inductionHypothesis fits opening
  | case4 inner _ _ inductionHypothesis =>
      rw [Gap.reopen, List.cons_append, List.cons_append, skipGap_open]
      exact inductionHypothesis fits _
  | case5 rest notBar =>
      have stays : skipGap .layout ('#' :: (rest ++ more)) = '#' :: (rest ++ more) := by
        refine afterGap_eq_self (by decide) (by decide) fun _ isBar => ?_
        cases rest with
        | nil => exact fits.elim
        | cons first others =>
            obtain rfl : first = '|' := Option.some.inj isBar
            exact notBar others rfl
      rw [Gap.reopen, List.cons_append, stays]
      exact .stops (List.cons_ne_nil _ _) rfl
  | case6 character rest notLayout notComment notHash =>
      have stays : skipGap .layout (character :: (rest ++ more)) = character :: (rest ++ more) :=
        afterGap_sign ⟨Bool.eq_false_iff.mpr notLayout, notComment, notHash⟩ _
      rw [Gap.reopen, List.cons_append, stays]
      exact .stops (List.cons_ne_nil _ _) rfl
  | case7 => exact .reaches
  | case8 rest inductionHypothesis =>
      rw [Gap.reopen, List.cons_append, skipGap_newline]
      exact inductionHypothesis fits opening
  | case9 character rest notNewline inductionHypothesis =>
      rw [Gap.scan, run_cons, step, if_neg notNewline] at fits ⊢
      rw [Gap.reopen, List.cons_append, skipGap_line notNewline]
      exact inductionHypothesis fits opening
  | case10 unclosed => exact fits.elim
  | case11 unclosed rest inductionHypothesis =>
      rw [Gap.reopen, List.cons_append, List.cons_append, skipGap_close]
      exact inductionHypothesis fits opening
  | case12 unclosed first rest notClose inductionHypothesis =>
      -- Behind an open block comment nothing fits, so the comment is not at the end of the text.
      have goesOn : rest ≠ [] := by
        rintro rfl
        rw [Gap.scan, run_cons, step] at fits
        split_ifs at fits <;> exact fits.elim
      have sameScan : Scan.block.run (first :: rest) = Scan.block.run rest := by
        rw [run_cons, step]
        split_ifs with isBar
        · obtain ⟨second, others, rfl⟩ := List.exists_cons_of_ne_nil goesOn
          have notHash : second ≠ '#' := fun isHash => notClose others isBar (by rw [isHash])
          rw [run_cons, run_cons, step, step, if_neg notHash]
        · rfl
      rw [Gap.reopen, List.cons_append,
        skipGap_block _ fun others isBar =>
          not_starts_letter goesOn (fun others same => notClose others isBar same) others]
      rw [Gap.scan, sameScan] at fits ⊢
      exact inductionHypothesis fits opening

end SmallScheme.Reader
