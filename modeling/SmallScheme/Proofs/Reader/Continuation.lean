import SmallScheme.Proofs.Reader.Gap
import SmallScheme.Proofs.Reader.Progress

namespace SmallScheme.Reader

/-!
# A text that goes on with a new line

A line end settles all that was read before it: the same data are read if the text goes on behind
it, and the same characters are left of it.  If the reading failed, then either because the text was
at its end, or it fails on the longer text as well, or a block comment was open at the line end.
-/

variable
  {engine : Regex.Engine}
  {First Answer : Type}
  {text rest after : List Char}

/-- The text was at its end, and what was missing there is more text. -/
def Failure.IsAtEnd (failure : Failure) : Prop :=
  failure.stumble ≠ .nesting ∧ failure.rest = []

/-- How a reading ends, and how it ends if the text goes on behind a line end. -/
inductive GoesOn
    (after : List Char)
    (scan : Scan)
    (text : List Char) :
    Except Failure (Answer × List Char) → Except Failure (Answer × List Char) → Prop
  | accepted {answer : Answer} {rest : List Char} :
      scan.leavesBlock text = Scan.layout.leavesBlock rest →
      GoesOn after scan text (.ok (answer, rest)) (.ok (answer, rest ++ '\n' :: after))
  | atEnd {failure : Failure} {extended : Except Failure (Answer × List Char)} :
      failure.IsAtEnd →
      scan.leavesBlock text = false →
      GoesOn after scan text (.error failure) extended
  | inBlock {failure : Failure} {extended : Except Failure (Answer × List Char)} :
      ¬failure.IsAtEnd →
      scan.leavesBlock text = true →
      GoesOn after scan text (.error failure) extended
  | rejected {failure other : Failure} :
      ¬failure.IsAtEnd →
      GoesOn after scan text (.error failure) (.error other)

namespace GoesOn

variable {scan other : Scan}

/-- Only what the scan makes of the text matters, not where it begins. -/
theorem of_scan
    {shorter : List Char}
    {outcome extended : Except Failure (Answer × List Char)}
    (same : scan.leavesBlock text = other.leavesBlock shorter)
    (goesOn : GoesOn after other shorter outcome extended) :
    GoesOn after scan text outcome extended := by
  cases goesOn with
  | accepted leaves => exact .accepted (same.trans leaves)
  | atEnd atEnd leaves => exact .atEnd atEnd (same.trans leaves)
  | inBlock notAtEnd leaves => exact .inBlock notAtEnd (same.trans leaves)
  | rejected notAtEnd => exact .rejected notAtEnd

/-- Readings that follow one another go on if each of them does. -/
theorem bind
    {first extended : Except Failure (First × List Char)}
    {next nextExtended : First × List Char → Except Failure (Answer × List Char)}
    (goesOn : GoesOn after scan text first extended)
    (thenOn :
      ∀ answer rest,
        GoesOn after .layout rest (next (answer, rest))
          (nextExtended (answer, rest ++ '\n' :: after))) :
    GoesOn after scan text (first >>= next) (extended >>= nextExtended) := by
  cases goesOn with
  | accepted leaves => exact (thenOn _ _).of_scan leaves
  | atEnd atEnd leaves => exact .atEnd atEnd leaves
  | inBlock notAtEnd leaves => exact .inBlock notAtEnd leaves
  | rejected notAtEnd => exact .rejected notAtEnd

/-- A datum that is made of what has been read changes nothing. -/
theorem map
    {first extended : Except Failure (First × List Char)}
    (make : First → Answer)
    (goesOn : GoesOn after scan text first extended) :
    GoesOn after scan text
      (first >>= fun found => return (make found.1, found.2))
      (extended >>= fun found => return (make found.1, found.2)) :=
  goesOn.bind fun _ _ => .accepted rfl

/-- A failure where some text was left. -/
theorem rejected_of_rest
    {stumble : Stumble}
    {left : List Char}
    {other : Failure}
    (nonempty : left ≠ []) :
    GoesOn after scan text (.error ⟨stumble, left⟩ : Except Failure (Answer × List Char))
      (.error other) :=
  .rejected fun atEnd => nonempty atEnd.2

/-- A text that is at its end outside of a block comment only has to be continued. -/
theorem atEnd_of_form
    {extended : Except Failure (Answer × List Char)}
    (leaves : scan.leavesBlock text = false) :
    GoesOn after scan text (.error ⟨.form, []⟩) extended :=
  .atEnd ⟨nofun, rfl⟩ leaves

/-- A text that there was no fuel for. -/
theorem starved
    (text : List Char) :
    GoesOn after .layout text (.error ⟨.form, text⟩ : Except Failure (Answer × List Char))
      (.error ⟨.form, text ++ '\n' :: after⟩) := by
  cases text with
  | nil => exact .atEnd_of_form rfl
  | cons first others => exact .rejected_of_rest (List.cons_ne_nil _ _)

end GoesOn

/-! Tokens. -/

/-- Where a token ends is not changed by a further line. -/
theorem endsToken_append
    (text after : List Char) :
    endsToken (text ++ '\n' :: after) = endsToken text := by
  cases text <;> rfl

/-- A token goes no further than the line that it is on. -/
theorem spanToken_append_newline
    (text after : List Char) :
    spanToken (text ++ '\n' :: after) =
      ((spanToken text).1, (spanToken text).2 ++ '\n' :: after) := by
  have ends : isDelimiter '\n' = true := by decide
  induction text with
  | nil =>
      simp [spanToken, List.span_eq_takeWhile_dropWhile, ends]
  | cons first others inductionHypothesis =>
      simp only [spanToken, List.span_eq_takeWhile_dropWhile, Prod.mk.injEq, List.cons_append]
        at inductionHypothesis ⊢
      cases delimits : isDelimiter first <;> simp [delimits, inductionHypothesis]

/-- After a token nothing is open, just as where no token was. -/
theorem leavesBlock_token
    (text : List Char) :
    Scan.token.leavesBlock text = Scan.layout.leavesBlock (spanToken text).2 := by
  induction text with
  | nil => rfl
  | cons first others inductionHypothesis =>
      simp only [spanToken, List.span_eq_takeWhile_dropWhile] at inductionHypothesis ⊢
      cases delimits : isDelimiter first <;>
        simp [delimits, inductionHypothesis, Scan.step, Scan.afterToken]

/-! One character of a text literal or of a pattern. -/

/-- Blanks behind a continued line are dropped. -/
theorem readText_joined
    {joining : Bool}
    {character : Char}
    (isJoined : (joining && (character = ' ' || character = '\t')) = true)
    (text : List Char) :
    readText joining (character :: text) = readText true text := by
  rw [readText.eq_def]
  exact if_pos isJoined

/-- A quotation mark closes a text. -/
theorem readText_close
    (joining : Bool)
    (text : List Char) :
    readText joining ('\x22' :: text) = .ok ([], text) := by
  rw [readText.eq_def]
  cases joining <;> rfl

/-- Behind a backslash the line goes on, and blanks are dropped. -/
theorem readText_continued
    (joining : Bool)
    (text : List Char) :
    readText joining ('\\' :: '\n' :: text) = readText true text := by
  rw [readText.eq_def]
  cases joining <;> rfl

/-- Behind a backslash a letter stands for a character, or it is refused. -/
theorem readText_escape
    (joining : Bool)
    {letter : Char}
    (notNewline : letter ≠ '\n')
    (text : List Char) :
    readText joining ('\\' :: letter :: text) =
      match textEscape? letter with
      | some escaped => do
          let (characters, last) ← readText false text
          return (escaped :: characters, last)
      | none => .error ⟨.escape, '\\' :: letter :: text⟩ := by
  rw [readText.eq_def]
  cases joining <;> exact if_neg notNewline

/-- Any other character stands for itself. -/
theorem readText_plain
    {joining : Bool}
    {character : Char}
    (notJoined : ¬(joining && (character = ' ' || character = '\t')) = true)
    (notQuote : character ≠ '\x22')
    (notBackslash : character ≠ '\\')
    (text : List Char) :
    readText joining (character :: text) = do
      let (characters, last) ← readText false text
      return (character :: characters, last) := by
  rw [readText.eq_def]
  exact (if_neg notJoined).trans ((if_neg notQuote).trans (if_neg notBackslash))

/-- In a pattern, too, a character stands for itself. -/
theorem readPattern_plain
    {character : Char}
    (notSlash : character ≠ '/')
    (notBackslash : character ≠ '\\')
    (text : List Char) :
    readPattern (character :: text) = do
      let (characters, last) ← readPattern text
      return (character :: characters, last) :=
  readPattern.eq_5 character text notSlash (fun isBackslash _ => notBackslash isBackslash)
    (fun _ _ isBackslash _ => notBackslash isBackslash)

/-! What has no data in it. -/

/-- A text that is not closed yet goes on in the next line. -/
theorem readText_goesOn
    (after : List Char)
    (joining : Bool)
    (text : List Char) :
    GoesOn after .text text (readText joining text) (readText joining (text ++ '\n' :: after)) := by
  fun_induction readText joining text with
  | case1 => exact .atEnd_of_form rfl
  | case2 joining character rest isJoined inductionHypothesis =>
      rw [List.cons_append, readText_joined isJoined]
      refine inductionHypothesis.of_scan ?_
      simp only [Bool.and_eq_true, Bool.or_eq_true, decide_eq_true_eq] at isJoined
      rcases isJoined.2 with rfl | rfl <;> rfl
  | case3 joining rest notJoined =>
      rw [List.cons_append, readText_close]
      exact .accepted rfl
  | case4 => exact .atEnd_of_form rfl
  | case5 joining rest notJoined notQuote inductionHypothesis =>
      rw [List.cons_append, List.cons_append, readText_continued]
      refine inductionHypothesis.of_scan ?_
      rfl
  | case6 joining letter rest notNewline escaped means notJoined notQuote inductionHypothesis =>
      rw [List.cons_append, List.cons_append, readText_escape joining notNewline, means]
      refine (inductionHypothesis.map (escaped :: ·)).of_scan ?_
      rfl
  | case7 joining letter rest notNewline meansNothing notJoined notQuote =>
      rw [List.cons_append, List.cons_append, readText_escape joining notNewline, meansNothing]
      exact .rejected_of_rest (List.cons_ne_nil _ _)
  | case8 joining character rest notJoined notQuote notBackslash inductionHypothesis =>
      rw [List.cons_append, readText_plain notJoined notQuote notBackslash]
      refine (inductionHypothesis.map (character :: ·)).of_scan ?_
      rw [Scan.leavesBlock_cons, Scan.step, if_neg notQuote, if_neg notBackslash]

/-- A pattern that is not closed yet goes on in the next line. -/
theorem readPattern_goesOn
    (after text : List Char) :
    GoesOn after .pattern text (readPattern text) (readPattern (text ++ '\n' :: after)) := by
  fun_induction readPattern text with
  | case1 => exact .atEnd_of_form rfl
  | case2 rest =>
      rw [List.cons_append, readPattern]
      exact .accepted rfl
  | case3 => exact .atEnd_of_form rfl
  | case4 character rest inductionHypothesis =>
      rw [List.cons_append, List.cons_append, readPattern]
      have goesOn := inductionHypothesis.map fun characters =>
        if character = '/' then '/' :: characters else '\\' :: character :: characters
      split_ifs at goesOn ⊢ with isSlash
      · refine goesOn.of_scan ?_
        rfl
      · refine goesOn.of_scan ?_
        rfl
  | case5 character rest notSlash notLone notEscaped inductionHypothesis =>
      have notBackslash : character ≠ '\\' := by
        intro isBackslash
        cases rest with
        | nil => exact notLone isBackslash rfl
        | cons first others => exact notEscaped first others isBackslash rfl
      rw [List.cons_append, readPattern_plain notSlash notBackslash]
      refine (inductionHypothesis.map (character :: ·)).of_scan ?_
      rw [Scan.leavesBlock_cons, Scan.step, if_neg notSlash, if_neg notBackslash]

/-- The datum of a text goes on where the text does. -/
theorem readTextDatum_goesOn
    (after text : List Char) :
    GoesOn after .text text (readTextDatum text) (readTextDatum (text ++ '\n' :: after)) :=
  (readText_goesOn after false text).bind fun _ _ => .accepted rfl

/-- Whether a pattern compiles is asked when it has been closed. -/
theorem readRegex_goesOn
    (after text : List Char) :
    GoesOn after .pattern text (readRegex text) (readRegex (text ++ '\n' :: after)) := by
  cases text with
  | nil => exact .atEnd_of_form rfl
  | cons first others =>
      refine (readPattern_goesOn after (first :: others)).bind fun characters rest => ?_
      dsimp only
      split
      · exact .accepted rfl
      · exact .rejected_of_rest (List.cons_ne_nil _ _)

/-- A character is named on one line. -/
theorem readCharacter_goesOn
    (after text : List Char) :
    GoesOn after .letter text (readCharacter text) (readCharacter (text ++ '\n' :: after)) := by
  cases text with
  | nil => exact .atEnd_of_form rfl
  | cons first others =>
      have leaves :
          Scan.letter.leavesBlock (first :: others) =
            Scan.layout.leavesBlock (spanToken others).2 :=
        leavesBlock_token others
      simp only [readCharacter, List.cons_append, spanToken_append_newline]
      split
      · exact .accepted leaves
      · split
        · exact .accepted leaves
        · exact .rejected_of_rest (List.cons_ne_nil _ _)

/-- The first letter of a token is where the text begins, and no delimiter. -/
theorem spanToken_eq_cons
    {letter : Char}
    {others : List Char}
    (isToken : (spanToken text).1 = letter :: others) :
    isDelimiter letter = false ∧ ∃ further, text = letter :: further := by
  refine ⟨spanToken_fst text letter (by rw [isToken]; exact List.mem_cons_self), ?_⟩
  cases text with
  | nil => cases isToken
  | cons first further =>
      rw [spanToken, List.span_eq_takeWhile_dropWhile, List.takeWhile_cons] at isToken
      split_ifs at isToken
      exact ⟨further, by rw [(List.cons.inj isToken).1]⟩

/-- A constant is named on one line, or opens a block comment. -/
theorem readConstant_goesOn
    (after text : List Char) :
    GoesOn after .hash text (readConstant ('#' :: text))
      (readConstant ('#' :: (text ++ '\n' :: after))) := by
  have leaves
      {letter : Char}
      {others : List Char}
      (isToken : (spanToken text).1 = letter :: others)
      (plain : letter ≠ '|' ∧ letter ≠ '/' ∧ letter ≠ '\\') :
      Scan.hash.leavesBlock text = Scan.layout.leavesBlock (spanToken text).2 := by
    obtain ⟨_, further, rfl⟩ := spanToken_eq_cons isToken
    rw [← leavesBlock_token, Scan.leavesBlock_cons, Scan.step, if_neg plain.1, if_neg plain.2.1,
      if_neg plain.2.2]
    rfl
  simp only [readConstant, List.drop_succ_cons, List.drop_zero, spanToken_append_newline]
  generalize (spanToken text).1 = token at leaves
  split
  · exact .accepted (leaves rfl (by decide))
  · exact .accepted (leaves rfl (by decide))
  · exact .accepted (leaves rfl (by decide))
  · exact .accepted (leaves rfl (by decide))
  · split_ifs with isHexadecimal
    · split
      · simp only [Bool.or_eq_true, decide_eq_true_eq] at isHexadecimal
        refine .accepted (leaves rfl ?_)
        rcases isHexadecimal with rfl | rfl <;> decide
      · exact .rejected_of_rest (List.cons_ne_nil _ _)
    · exact .rejected_of_rest (List.cons_ne_nil _ _)
  · exact .rejected_of_rest (List.cons_ne_nil _ _)

/-- An atom is on one line. -/
theorem readAtom_goesOn
    (after : List Char)
    {text : List Char}
    (notHash : text.head? ≠ some '#') :
    GoesOn after .layout text (readAtom text) (readAtom (text ++ '\n' :: after)) := by
  have leaves
      (isToken : (spanToken text).1 ≠ []) :
      Scan.layout.leavesBlock text = Scan.layout.leavesBlock (spanToken text).2 := by
    obtain ⟨letter, others, isToken⟩ := List.exists_cons_of_ne_nil isToken
    obtain ⟨notDelimiter, further, rfl⟩ := spanToken_eq_cons isToken
    have notHash : letter ≠ '#' := fun isHash => notHash (by rw [isHash]; rfl)
    have starts : Scan.start letter = .token := by
      unfold Scan.start
      split_ifs <;> simp_all [isDelimiter]
    rw [← leavesBlock_token, Scan.leavesBlock_cons, Scan.leavesBlock_cons, Scan.step, Scan.step,
      Scan.afterToken, starts, notDelimiter]
    rfl
  cases text with
  | nil => exact .atEnd_of_form rfl
  | cons first further =>
      simp only [readAtom, spanToken_append_newline]
      generalize (spanToken (first :: further)).1 = token at leaves
      split
      case isTrue => exact .rejected_of_rest (List.cons_ne_nil _ _)
      case isFalse notEmptyOrDot =>
        simp only [Bool.or_eq_true, decide_eq_true_eq, not_or, List.isEmpty_iff] at notEmptyOrDot
        split
        · exact .accepted (leaves notEmptyOrDot.1)
        · exact .rejected_of_rest (List.cons_ne_nil _ _)
        · exact .accepted (leaves notEmptyOrDot.1)

/-! What a text opens with, and what comes next in it. -/

/-- The same opening of a text that goes on. -/
def Opening.extend (more : List Char) : Opening → Opening
  | .mark abbreviation rest => .mark abbreviation (rest ++ more)
  | .list rest => .list (rest ++ more)
  | .text rest => .text (rest ++ more)
  | .vector rest => .vector (rest ++ more)
  | .bytevector rest => .bytevector (rest ++ more)
  | .regex rest => .regex (rest ++ more)
  | .character rest => .character (rest ++ more)
  | .constant rest => .constant (rest ++ more)
  | .atom start => .atom (start ++ more)

/-- What is open before the text that an announced part is read from. -/
def Opening.scan : Opening → Scan
  | .text _ => .text
  | .regex _ => .pattern
  | .character _ => .letter
  | .constant _ => .hash
  | _ => .layout

/-- What does not start with some characters of a line does not start with them if it goes on. -/
theorem not_starts_append
    (lead : List Char)
    (ofLine : '\n' ∉ lead)
    (notStarts : ∀ others, text = lead ++ others → False)
    (others : List Char) :
    ¬text ++ '\n' :: after = lead ++ others := by
  intro same
  rcases List.append_eq_append_iff.mp same with ⟨middle, isLead, isRest⟩ | ⟨middle, isText, _⟩
  · cases middle with
    | nil => exact notStarts [] (by rw [isLead, List.append_nil, List.append_nil])
    | cons first further =>
        obtain ⟨rfl, _⟩ := List.cons.inj isRest
        exact ofLine (by rw [isLead]; simp)
  · exact notStarts middle isText

/-- What opens a datum is recognised without the lines that follow. -/
theorem opening_append
    (after text : List Char) :
    opening (text ++ '\n' :: after) = (opening text).extend ('\n' :: after) := by
  fun_cases opening text with
  | case4 rest notSplicing =>
      exact opening.eq_4 _ (not_starts_append ['@'] (by decide) notSplicing)
  | case11 rest notVector notBytevector notRegex notCharacter =>
      exact opening.eq_11 _ (not_starts_append ['('] (by decide) notVector)
        (not_starts_append ['u', '8', '('] (by decide) notBytevector)
        (not_starts_append ['/'] (by decide) notRegex)
        (not_starts_append ['\\'] (by decide) notCharacter)
  | case12 _ notQuote notQuasiquote notSplicing notUnquote notList notText notVector notBytevector
      notRegex notCharacter notHash =>
      exact opening.eq_12 _
        (not_starts_append ['\x27'] (by decide) notQuote)
        (not_starts_append ['\x60'] (by decide) notQuasiquote)
        (not_starts_append [',', '@'] (by decide) notSplicing)
        (not_starts_append [','] (by decide) notUnquote)
        (not_starts_append ['('] (by decide) notList)
        (not_starts_append ['\x22'] (by decide) notText)
        (not_starts_append ['#', '('] (by decide) notVector)
        (not_starts_append ['#', 'u', '8', '('] (by decide) notBytevector)
        (not_starts_append ['#', '/'] (by decide) notRegex)
        (not_starts_append ['#', '\\'] (by decide) notCharacter)
        (not_starts_append ['#'] (by decide) notHash)
  | _ => rfl

/-- The scan is as far behind the opening of a datum as the reader is. -/
theorem leavesBlock_opening
    (text : List Char) :
    Scan.layout.leavesBlock text = (opening text).scan.leavesBlock (opening text).rest := by
  fun_cases opening text with
  | case4 rest notSplicing =>
      cases rest with
      | nil => rfl
      | cons first others =>
          have notAt : first ≠ '@' := fun isAt => notSplicing others (by rw [isAt])
          change (Scan.step .comma first).leavesBlock others = (Scan.start first).leavesBlock others
          simp only [Scan.step, if_neg notAt]
  | _ => rfl

/-- What is read as an atom opens no block comment. -/
theorem head?_of_atom
    (isAtom : opening text = .atom rest) :
    rest.head? ≠ some '#' := by
  unfold opening at isAtom
  split at isAtom
  case h_12 notHash =>
    cases isAtom
    cases text with
    | nil => rintro ⟨⟩
    | cons first others =>
        intro isHash
        exact notHash others (by rw [Option.some.inj isHash])
  all_goals cases isAtom

/-- In a list or a vector a closing parenthesis or an item comes next, and so it does later. -/
theorem upcoming_append
    (after : List Char)
    (nonempty : text ≠ []) :
    (∃ rest, text = ')' :: rest) ∨
      (upcoming text = .item text ∧
        upcoming (text ++ '\n' :: after) = .item (text ++ '\n' :: after)) := by
  obtain ⟨isEmpty, _⟩ | ⟨rest, isClose, _⟩ | ⟨_, notClose, comes⟩ := upcoming_spec text
  · exact (nonempty isEmpty).elim
  · exact .inl ⟨rest, isClose⟩
  · refine .inr ⟨comes, upcoming_eq_item ?_ ?_⟩
    · simp
    · exact not_starts_append [')'] (by decide) notClose

/-- The dot of an improper list is recognised on its line. -/
theorem afterDot?_append
    (after text : List Char) :
    afterDot? (text ++ '\n' :: after) = (afterDot? text).map (· ++ '\n' :: after) := by
  fun_cases afterDot? text with
  | case1 rest ends =>
      rw [List.cons_append, afterDot?, endsToken_append, if_pos ends, Option.map_some]
  | case2 rest goesOn =>
      rw [List.cons_append, afterDot?, endsToken_append, if_neg goesOn, Option.map_none]
  | case3 _ notDot =>
      exact afterDot?.eq_2 _ (not_starts_append ['.'] (by decide) notDot)

/-- A dot is layout as far as block comments are concerned. -/
theorem leavesBlock_dot
    (ends : endsToken rest = true) :
    Scan.layout.leavesBlock ('.' :: rest) = Scan.layout.leavesBlock rest := by
  have starts : Scan.start '.' = .token := by decide
  have noToken : spanToken rest = ([], rest) := spanToken_append [] nofun ends
  rw [Scan.leavesBlock_cons, Scan.step, starts, leavesBlock_token, noToken]

/-- The parenthesis that closes an improper list may follow on a later line. -/
theorem closeAfter_goesOn
    (after : List Char)
    (tail : Datum)
    (text : List Char) :
    GoesOn after .layout text (closeAfter tail text) (closeAfter tail (text ++ '\n' :: after)) := by
  unfold closeAfter
  have passes := afterGap_passes after text
  generalize afterGap text = start at passes
  generalize afterGap (text ++ '\n' :: after) = extended at passes
  cases passes with
  | inBlock leaves => exact .inBlock (fun atEnd => nomatch atEnd.2) leaves
  | nothing leaves => exact .atEnd_of_form leaves
  | something nonempty _ leaves =>
      obtain ⟨rest, rfl⟩ | ⟨comes, comesLater⟩ := upcoming_append after nonempty
      · exact .accepted leaves
      · rw [comes, comesLater]
        exact .rejected_of_rest nonempty

/-- Whether items are bytes does not depend on what follows. -/
theorem bytesOf_goesOn
    (after text : List Char)
    (items : List Datum)
    (rest : List Char) :
    GoesOn after .layout rest (bytesOf text items rest)
      (bytesOf (text ++ '\n' :: after) items (rest ++ '\n' :: after)) := by
  unfold bytesOf
  split
  · exact .accepted rfl
  · exact .rejected_of_rest (List.cons_ne_nil _ _)

/-! The five functions of the reader. -/

/-- With so much fuel each function of the reader goes on behind a line end. -/
structure AllGoOn [Regex.Engine] (fuel : Nat) : Prop where
  datum :
    ∀ after depth text,
      GoesOn after .layout text (readDatum fuel depth text)
        (readDatum fuel depth (text ++ '\n' :: after))
  marked :
    ∀ after depth mark text,
      GoesOn after .layout text (readMarked fuel depth mark text)
        (readMarked fuel depth mark (text ++ '\n' :: after))
  items :
    ∀ after depth text,
      GoesOn after .layout text (readItems fuel depth text)
        (readItems fuel depth (text ++ '\n' :: after))
  tail :
    ∀ after depth started text,
      GoesOn after .layout text (readTail fuel depth started text)
        (readTail fuel depth started (text ++ '\n' :: after))
  element :
    ∀ after depth text,
      GoesOn after .layout text (readElement fuel depth text)
        (readElement fuel depth (text ++ '\n' :: after))

/-! Where a block comment is open no datum is read, and the reader does not ask for more text. -/

/-- Where a datum is asked for, an open block comment is no constant. -/
theorem readConstant_block
    (inner : List Char) :
    readConstant ('#' :: '|' :: inner) = .error ⟨.form, '#' :: '|' :: inner⟩ := by
  have notDelimiter : isDelimiter '|' = false := by decide
  simp [readConstant, spanToken, List.span_eq_takeWhile_dropWhile, notDelimiter]

/-- An open block comment is bad syntax for the reader of data. -/
theorem readDatum_block
    (fuel depth : Nat)
    {inner : List Char}
    (settled : afterGap ('#' :: '|' :: inner) = '#' :: '|' :: inner) :
    ∃ failure,
      readDatum fuel depth ('#' :: '|' :: inner) = .error failure ∧ ¬failure.IsAtEnd := by
  cases fuel with
  | zero => exact ⟨⟨.form, '#' :: '|' :: inner⟩, by rw [readDatum], fun atEnd => nomatch atEnd.2⟩
  | succ fuel =>
      rw [readDatum_succ, settled]
      split_ifs
      · exact ⟨_, rfl, fun atEnd => atEnd.1 rfl⟩
      · exact ⟨_, readConstant_block inner, fun atEnd => nomatch atEnd.2⟩

/-- An open block comment is bad syntax for the reader of items, too. -/
theorem readElement_block
    (fuel depth : Nat)
    {inner : List Char}
    (settled : afterGap ('#' :: '|' :: inner) = '#' :: '|' :: inner) :
    ∃ failure,
      readElement fuel depth ('#' :: '|' :: inner) = .error failure ∧ ¬failure.IsAtEnd := by
  cases fuel with
  | zero => exact ⟨⟨.form, '#' :: '|' :: inner⟩, by rw [readElement], fun atEnd => nomatch atEnd.2⟩
  | succ fuel =>
      obtain ⟨failure, fails, notAtEnd⟩ := readDatum_block fuel (depth + 1) settled
      exact ⟨failure, by rw [readElement, fails]; rfl, notAtEnd⟩

/-- A block comment looks like the opening of a constant. -/
theorem opening_block
    (inner : List Char) :
    opening ('#' :: '|' :: inner) = .constant ('|' :: inner) :=
  rfl

/-- A block comment looks like an item. -/
theorem upcoming_block
    (inner : List Char) :
    upcoming ('#' :: '|' :: inner) = .item ('#' :: '|' :: inner) :=
  rfl

namespace AllGoOn

variable {fuel : Nat}

/-- A datum goes on if its parts do, which are read with less fuel. -/
theorem datum_succ
    (holds : AllGoOn fuel)
    (after : List Char)
    (depth : Nat)
    (text : List Char) :
    GoesOn after .layout text (readDatum (fuel + 1) depth text)
      (readDatum (fuel + 1) depth (text ++ '\n' :: after)) := by
  rw [readDatum_succ, readDatum_succ]
  split_ifs
  · exact .rejected fun atEnd => atEnd.1 rfl
  have passes := afterGap_passes after text
  generalize afterGap text = start at passes
  generalize afterGap (text ++ '\n' :: after) = extended at passes
  cases passes with
  | @inBlock inner _ leaves =>
      rw [opening_block]
      dsimp only
      rw [readConstant_block]
      exact .inBlock (fun atEnd => nomatch atEnd.2) leaves
  | nothing leaves => exact .atEnd_of_form leaves
  | something _ _ leaves =>
      rw [opening_append]
      refine GoesOn.of_scan (leaves.trans (leavesBlock_opening start)) ?_
      cases opens : opening start with
      | mark mark rest => exact holds.marked after depth mark rest
      | list rest => exact holds.tail after depth false rest
      | text rest => exact readTextDatum_goesOn after rest
      | vector rest => exact (holds.items after depth rest).map Datum.vector
      | bytevector rest =>
          exact (holds.items after depth rest).bind fun items last =>
            bytesOf_goesOn after rest items last
      | regex rest => exact readRegex_goesOn after rest
      | character rest => exact readCharacter_goesOn after rest
      | constant rest => exact readConstant_goesOn after rest
      | atom whole => exact readAtom_goesOn after (head?_of_atom opens)

/-- A marked datum goes on if the datum behind the mark does. -/
theorem marked_succ
    (holds : AllGoOn fuel)
    (after : List Char)
    (depth : Nat)
    (mark : Mark)
    (text : List Char) :
    GoesOn after .layout text (readMarked (fuel + 1) depth mark text)
      (readMarked (fuel + 1) depth mark (text ++ '\n' :: after)) := by
  rw [readMarked, readMarked]
  exact (holds.datum after (depth + 1) text).map (Datum.marked mark)

/-- Items go on if the first of them and those behind it do. -/
theorem items_succ
    (holds : AllGoOn fuel)
    (after : List Char)
    (depth : Nat)
    (text : List Char) :
    GoesOn after .layout text (readItems (fuel + 1) depth text)
      (readItems (fuel + 1) depth (text ++ '\n' :: after)) := by
  rw [readItems_succ, readItems_succ]
  have settled := afterGap_afterGap text
  have passes := afterGap_passes after text
  generalize afterGap text = start at passes settled
  generalize afterGap (text ++ '\n' :: after) = extended at passes
  cases passes with
  | @inBlock inner _ leaves =>
      obtain ⟨failure, fails, notAtEnd⟩ := readDatum_block fuel (depth + 1) settled
      rw [upcoming_block]
      dsimp only
      rw [fails]
      exact .inBlock notAtEnd leaves
  | nothing leaves => exact .atEnd_of_form leaves
  | something nonempty _ leaves =>
      obtain ⟨rest, rfl⟩ | ⟨comes, comesLater⟩ := upcoming_append after nonempty
      · exact .accepted leaves
      · rw [comes, comesLater]
        refine ((holds.datum after (depth + 1) _).bind fun item afterItem => ?_).of_scan leaves
        exact (holds.items after depth afterItem).map (item :: ·)

/-- The rest of a list goes on if its parts do. -/
theorem tail_succ
    (holds : AllGoOn fuel)
    (after : List Char)
    (depth : Nat)
    (started : Bool)
    (text : List Char) :
    GoesOn after .layout text (readTail (fuel + 1) depth started text)
      (readTail (fuel + 1) depth started (text ++ '\n' :: after)) := by
  rw [readTail_succ, readTail_succ]
  have settled := afterGap_afterGap text
  have passes := afterGap_passes after text
  generalize afterGap text = start at passes settled
  generalize afterGap (text ++ '\n' :: after) = extended at passes
  cases passes with
  | @inBlock inner _ leaves =>
      obtain ⟨failure, fails, notAtEnd⟩ := readElement_block fuel depth settled
      have notDotted : afterDot? ('#' :: '|' :: inner) = none := rfl
      rw [upcoming_block]
      dsimp only
      rw [notDotted]
      dsimp only
      rw [fails]
      exact .inBlock notAtEnd leaves
  | nothing leaves => exact .atEnd_of_form leaves
  | something nonempty _ leaves =>
      obtain ⟨rest, rfl⟩ | ⟨comes, comesLater⟩ := upcoming_append after nonempty
      · exact .accepted leaves
      · rw [comes, comesLater]
        refine GoesOn.of_scan leaves ?_
        dsimp only
        rw [afterDot?_append]
        cases dotted : afterDot? start with
        | none => exact holds.element after depth start
        | some rest =>
            obtain ⟨rfl, ends⟩ := afterDot?_eq_some_iff.mp dotted
            cases started with
            | false => exact .rejected_of_rest nonempty
            | true =>
                refine GoesOn.of_scan (leavesBlock_dot ends) ?_
                exact (holds.datum after (depth + 1) rest).bind fun tail last =>
                  closeAfter_goesOn after tail last

/-- An item goes on if it does as a datum. -/
theorem element_succ
    (holds : AllGoOn fuel)
    (after : List Char)
    (depth : Nat)
    (text : List Char) :
    GoesOn after .layout text (readElement (fuel + 1) depth text)
      (readElement (fuel + 1) depth (text ++ '\n' :: after)) := by
  rw [readElement, readElement]
  refine (holds.datum after (depth + 1) text).bind fun head afterHead => ?_
  exact (holds.tail after depth true afterHead).map (Datum.pair head)

end AllGoOn

/-- With every amount of fuel, by the fuel. -/
theorem allGoOn
    (fuel : Nat) :
    AllGoOn fuel := by
  induction fuel with
  | zero =>
      constructor <;> intros <;>
        simp only [readDatum, readMarked, readItems, readTail, readElement] <;>
        exact .starved _
  | succ fuel inductionHypothesis =>
      exact ⟨inductionHypothesis.datum_succ, inductionHypothesis.marked_succ,
        inductionHypothesis.items_succ, inductionHypothesis.tail_succ,
        inductionHypothesis.element_succ⟩

end SmallScheme.Reader
