import SmallScheme.Proofs.Excerpts
import SmallScheme.Proofs.Reader.Forms
import SmallScheme.Reader.Loops
import SmallScheme.Regex.Search

namespace SmallScheme

/-!
# Reading comes to an end

Main result.  Every datum that is read takes up something of the text and leaves a suffix of it, and
so every loop of the reader ends, after at most one turn more than there are characters.  Where the
reader stumbles a suffix of the text is left as well, and the place that the error names is the
boundary between two characters where this suffix starts.
-/

variable {engine : Regex.Engine}

/-- The place that the sentence about a cause names. -/
def ReadCause.place? : ReadCause → Option Nat
  | .badNumber position => some position
  | .badEscape position => some position
  | .badRegex position => some position
  | .strayClose position => some position
  | _ => none

namespace Reader

variable
  {Answer : Type}
  {text rest : List Char}
  {depth : Nat}

/-! Blanks and comments. -/

/-- Layout in front of a gap is part of the gap. -/
theorem afterGap_dropWhile
    (text : List Char) :
    afterGap (text.dropWhile Text.isLayout) = afterGap text := by
  induction text with
  | nil => rfl
  | cons character rest inductionHypothesis =>
      cases isLayout : Text.isLayout character with
      | true =>
          rw [List.dropWhile_cons_of_pos isLayout, inductionHypothesis]
          exact (skipGap_layout isLayout rest).symm
      | false => rw [List.dropWhile_cons_of_neg (by simp [isLayout])]

/-- A comment to the end of the line goes as far as the line does. -/
theorem skipGap_line_eq
    (text : List Char) :
    skipGap .line text = afterGap (text.dropWhile (· ≠ '\n')) := by
  induction text with
  | nil => rfl
  | cons character rest inductionHypothesis =>
      by_cases isNewline : character = '\n'
      · subst isNewline
        rw [skipGap_newline, List.dropWhile_cons_of_neg (by simp)]
        exact (skipGap_layout (by decide) rest).symm
      · rw [skipGap_line isNewline, List.dropWhile_cons_of_pos (by simp [isNewline]),
          inductionHypothesis]

/--
A block comment goes as far as its end, and where it has none the text is left at its opening.
-/
theorem skipGap_block_eq
    (opening text : List Char) :
    skipGap (.block opening) text =
      match afterBlock? text with
      | some rest => afterGap rest
      | none => opening := by
  fun_induction afterBlock? text with
  | case1 => rfl
  | case2 rest => exact skipGap_close opening rest
  | case3 character rest notClose inductionHypothesis =>
      rw [← inductionHypothesis]
      exact skipGap_block opening notClose

/-- Behind a block there is less text. -/
theorem length_of_afterBlock?
    (closed : afterBlock? text = some rest) :
    rest.length < text.length := by
  fun_induction afterBlock? text with
  | case1 => cases closed
  | case2 =>
      cases closed
      exact Nat.lt_succ_of_lt (Nat.lt_succ_self _)
  | case3 _ _ _ inductionHypothesis => exact Nat.lt_succ_of_lt (inductionHypothesis closed)

/-- Where the loop is left nothing is passed over; otherwise a turn passes over something. -/
theorem afterBlanks?_spec
    (text : List Char) :
    (afterBlanks? text = none ∧ afterGap text = text) ∨
      ∃ rest,
        afterBlanks? text = some rest ∧ afterGap text = afterGap rest ∧
          rest.length < text.length := by
  fun_cases afterBlanks? text with
  | case1 => exact .inl ⟨rfl, rfl⟩
  | case2 inner =>
      have closes := skipGap_block_eq ('#' :: '|' :: inner) inner
      rw [afterGap, skipGap_open]
      cases closed : afterBlock? inner with
      | none =>
          rw [closed] at closes
          exact .inl ⟨rfl, closes⟩
      | some rest =>
          rw [closed] at closes
          have shorter := length_of_afterBlock? closed
          exact .inr ⟨rest, rfl, closes, Nat.lt_succ_of_lt (Nat.lt_succ_of_lt shorter)⟩
  | case3 character rest _ isLayout =>
      refine .inr ⟨_, rfl, ?_, Nat.lt_succ_of_le (List.dropWhile_suffix _).length_le⟩
      rw [afterGap_dropWhile]
      exact skipGap_layout isLayout rest
  | case4 rest =>
      refine .inr ⟨_, rfl, ?_, Nat.lt_succ_of_le (List.dropWhile_suffix _).length_le⟩
      rw [← skipGap_line_eq]
      exact skipGap_semicolon rest
  | case5 character rest notBlock notLayout notComment =>
      refine .inl ⟨rfl, afterGap_eq_self (Bool.eq_false_iff.mpr notLayout) notComment ?_⟩
      intro isHash isBar
      cases rest with
      | nil => cases isBar
      | cons first others => exact notBlock others isHash (by rw [Option.some.inj isBar])

/-- The judgement of a gap leaves the text that the reader leaves. -/
theorem gapPassed_endsWith
    (text : List Char) :
    EndsWith text (GapPassed text) (afterGap text) := by
  induction isLength : text.length using Nat.strong_induction_on generalizing text with
  | _ length inductionHypothesis =>
  subst isLength
  rcases afterBlanks?_spec text with ⟨stops, stays⟩ | ⟨next, passes, same, shorter⟩
  · refine .leave fun count rest => ?_
    rw [gapPassed_iff, stops, stays]
  · rw [same]
    refine (inductionHypothesis _ shorter next rfl).again shorter fun count rest => ?_
    rw [gapPassed_iff, passes]

/-! Loops over data. -/

/-- A datum is read at this depth in one way, which is what the reader comes to. -/
def IsExactAt [Regex.Engine] (depth : Nat) : Prop :=
  ∀ text outcome, DatumRead depth text outcome ↔ outcome = datumAt depth text

/-- What a loop over data comes to, told by its turns, each of which starts within its text. -/
structure FollowsTurns [Regex.Engine]
    (turn : List Datum → List Char → Turn Answer)
    (depth : Nat)
    (answer : List Datum → List Char → Except Failure Answer) : Prop where
  within :
    ∀ {found text start}, turn found text = .next start → start.length ≤ text.length
  follows :
    ∀ found text,
      answer found text =
        match turn found text with
        | .leave outcome => outcome
        | .last start conclude => datumAt depth start >>= conclude
        | .next start => do
            let (datum, rest) ← datumAt depth start
            answer (found ++ [datum]) rest

/-- Each datum leaves less of the text, so the loop ends. -/
theorem FollowsTurns.endsWith
    {turn : List Datum → List Char → Turn Answer}
    {answer : List Datum → List Char → Except Failure Answer}
    (followsTurns : FollowsTurns turn depth answer)
    (exact : IsExactAt depth)
    (found : List Datum)
    (text : List Char) :
    EndsWith text (LoopRead turn depth found text) (answer found text) := by
  induction isLength : text.length using Nat.strong_induction_on generalizing found text with
  | _ length inductionHypothesis =>
  subst isLength
  rw [followsTurns.follows]
  cases comes : turn found text with
  | leave outcome =>
      refine .leave fun count other => ?_
      rw [loopRead_iff, comes]
  | last start conclude =>
      refine .leave fun count other => ?_
      rw [loopRead_iff, comes]
      simp only [exact start _, exists_eq_left]
  | next start =>
      have leaves := @datumAt_leavesSuffix engine depth start
      have only := exact start
      dsimp only
      generalize datumAt depth start = first at leaves only
      cases leaves with
      | @rejected failure _ =>
          change EndsWith text _ (Except.error failure)
          refine .leave fun count other => ?_
          rw [loopRead_iff, comes]
          simp [only]
      | @accepted datum rest _ shorter =>
          have shorter := shorter.trans_le (followsTurns.within comes)
          refine (inductionHypothesis _ shorter (found ++ [datum]) rest rfl).again shorter ?_
          intro count other
          rw [loopRead_iff, comes]
          simp [only]

/-! The three loops over data.  Each goes on as if what was found stood before what is left. -/

/-- The items of a vector are read in turns. -/
theorem itemsTurn_followsTurns
    (depth : Nat) :
    FollowsTurns itemsTurn (depth + 1) fun found text => do
      let (items, rest) ← itemsAt depth text
      return (found ++ items, rest) where
  within := by
    intro found text start starts
    unfold itemsTurn at starts
    obtain ⟨_, comes⟩ | ⟨_, _, comes⟩ | ⟨_, _, comes⟩ := upcoming_spec (afterGap text)
    all_goals rw [comes] at starts
    · cases starts
    · cases starts
    · cases starts
      exact length_afterGap_le text
  follows := by
    intro found text
    dsimp only
    rw [itemsAt_eq, itemsTurn]
    obtain ⟨_, comes⟩ | ⟨_, _, comes⟩ | ⟨_, _, comes⟩ := upcoming_spec (afterGap text)
    all_goals rw [comes]
    · rfl
    · simp only [bind, Except.bind, pure, Except.pure, List.append_nil]
    · dsimp only
      cases datumAt (depth + 1) (afterGap text) with
      | error failure => rfl
      | ok first =>
          obtain ⟨item, afterItem⟩ := first
          change ((itemsAt depth afterItem >>= _) >>= _) = itemsAt depth afterItem >>= _
          cases itemsAt depth afterItem with
          | error failure => rfl
          | ok others =>
              simp only [bind, Except.bind, pure, Except.pure, List.append_assoc,
                List.singleton_append]

/-- What was found can be put before the tail of a list as well as before the list that is read. -/
theorem closeAfter_bind
    (found : List Datum)
    (tail : Datum)
    (text : List Char) :
    (do
      let (tail, rest) ← closeAfter tail text
      return (Datum.listWithTail found tail, rest)) =
      closeAfter (Datum.listWithTail found tail) text := by
  unfold closeAfter
  obtain ⟨_, comes⟩ | ⟨_, _, comes⟩ | ⟨_, _, comes⟩ := upcoming_spec (afterGap text)
  all_goals
    rw [comes]
    rfl

/-- The items of a list are read in turns, and then its tail. -/
theorem listTurn_followsTurns
    (depth : Nat) :
    FollowsTurns listTurn (depth + 1) fun found text => do
      let (tail, rest) ← tailAt depth (!found.isEmpty) text
      return (Datum.listWithTail found tail, rest) where
  within := by
    intro found text start starts
    unfold listTurn at starts
    obtain ⟨_, comes⟩ | ⟨_, _, comes⟩ | ⟨_, _, comes⟩ := upcoming_spec (afterGap text)
    all_goals
      rw [comes] at starts
      dsimp only at starts
    · cases starts
    · cases starts
    · split at starts
      · split at starts <;> cases starts
      · cases starts
        exact length_afterGap_le text
  follows := by
    intro found text
    dsimp only
    rw [tailAt_eq, listTurn]
    obtain ⟨_, comes⟩ | ⟨_, _, comes⟩ | ⟨_, _, comes⟩ := upcoming_spec (afterGap text)
    all_goals
      rw [comes]
      dsimp only
    · rfl
    · rfl
    · cases afterDot? (afterGap text) with
      | none =>
          dsimp only
          cases datumAt (depth + 1) (afterGap text) with
          | error failure => rfl
          | ok first =>
              obtain ⟨head, afterHead⟩ := first
              have started : (!(found ++ [head]).isEmpty) = true := by simp
              dsimp only [bind, Except.bind]
              rw [started]
              cases tailAt depth true afterHead with
              | error failure => rfl
              | ok others => simp [pure, Except.pure, Datum.listWithTail]
      | some afterDot =>
          cases found with
          | nil => rfl
          | cons first others =>
              simp only [List.isEmpty_cons, Bool.not_false, Bool.false_eq_true, ↓reduceIte]
              cases datumAt (depth + 1) afterDot with
              | error failure => rfl
              | ok last => exact closeAfter_bind (first :: others) last.1 last.2

/-- The forms of a program are read in turns. -/
theorem formsTurn_followsTurns :
    FollowsTurns formsTurn 0 fun found text => do
      let forms ← formsOf text
      return found ++ forms where
  within := by
    intro found text start starts
    unfold formsTurn at starts
    split at starts
    · cases starts
    · cases starts
      exact length_afterGap_le text
  follows := by
    intro found text
    dsimp only
    rw [formsOf_eq, formsTurn]
    cases afterGap text with
    | nil => simp only [bind, Except.bind, pure, Except.pure, List.append_nil]
    | cons first others =>
        change ((datumAt 0 (first :: others) >>= _) >>= _) = datumAt 0 (first :: others) >>= _
        cases datumAt 0 (first :: others) with
        | error failure => rfl
        | ok read =>
            obtain ⟨form, rest⟩ := read
            change ((formsOf rest >>= _) >>= _) = formsOf rest >>= _
            cases formsOf rest with
            | error failure => rfl
            | ok forms =>
                simp only [bind, Except.bind, pure, Except.pure, List.append_assoc,
                  List.singleton_append]

/-- The judgement of the items leaves the text that the reader leaves. -/
theorem itemsRead_endsWith
    (exact : IsExactAt (depth + 1))
    (text : List Char) :
    EndsWith text (LoopRead itemsTurn (depth + 1) [] text) (itemsAt depth text) := by
  have ends := (itemsTurn_followsTurns depth).endsWith exact [] text
  have same :
      (do
        let (items, rest) ← itemsAt depth text
        return ([] ++ items, rest)) = itemsAt depth text := by
    cases itemsAt depth text <;> rfl
  rwa [same] at ends

/-- The judgement of a list leaves the text that the reader leaves. -/
theorem listRead_endsWith
    (exact : IsExactAt (depth + 1))
    (text : List Char) :
    EndsWith text (LoopRead listTurn (depth + 1) [] text) (tailAt depth false text) := by
  have ends := (listTurn_followsTurns depth).endsWith exact [] text
  have same :
      (do
        let (tail, rest) ← tailAt depth false text
        return (Datum.listWithTail [] tail, rest)) = tailAt depth false text := by
    cases tailAt depth false text <;> rfl
  rwa [List.isEmpty_nil, Bool.not_true, same] at ends

/-- The judgement of a program leaves the text that the reader leaves. -/
theorem formsRead_endsWith
    (exact : IsExactAt 0)
    (text : List Char) :
    EndsWith text (LoopRead formsTurn 0 [] text) (formsOf text) := by
  have ends := formsTurn_followsTurns.endsWith exact [] text
  have same :
      (do
        let forms ← formsOf text
        return [] ++ forms) = formsOf text := by
    cases formsOf text <;> rfl
  rwa [same] at ends

/-- Past the deepest nesting nothing is read, by the reader and by the judgement. -/
theorem IsExactAt.of_deep
    (deep : maxNesting ≤ depth) :
    IsExactAt depth := by
  intro text outcome
  rw [datumRead_iff, datumAt_eq, if_pos deep, if_pos deep]

/-- The loops one level down end, so there is one way to read a datum. -/
theorem IsExactAt.of_next
    (next : IsExactAt (depth + 1)) :
    IsExactAt depth := by
  intro text outcome
  rw [datumRead_iff, datumAt_eq]
  split
  · exact Iff.rfl
  · cases opening (afterGap text) with
    | mark mark rest => simp only [next rest _, exists_eq_left]
    | list rest => exact (listRead_endsWith next rest).exists_iff
    | vector rest => simp only [(itemsRead_endsWith next rest).exists_iff, exists_eq_left]
    | bytevector rest => simp only [(itemsRead_endsWith next rest).exists_iff, exists_eq_left]
    | text rest => exact Option.some_inj.trans eq_comm
    | regex rest => exact Option.some_inj.trans eq_comm
    | character rest => exact Option.some_inj.trans eq_comm
    | constant rest => exact Option.some_inj.trans eq_comm
    | atom start => exact Option.some_inj.trans eq_comm

/-- By induction on the levels that are left, for no datum is read beyond the limit. -/
theorem isExactAt
    (depth : Nat) :
    IsExactAt depth := by
  induction levels : maxNesting - depth generalizing depth with
  | zero => exact .of_deep (Nat.le_of_sub_eq_zero levels)
  | succ others inductionHypothesis => exact .of_next (inductionHypothesis (depth + 1) (by omega))

/-! The place of an error. -/

/-- The text left by a failure is an end of the text read. -/
theorem suffix_of_readForms
    {fuel : Nat}
    {failure : Failure}
    (fails : readForms fuel text = .error failure) :
    failure.rest <:+ text := by
  induction fuel generalizing text with
  | zero =>
      cases fails
      exact List.suffix_rfl
  | succ fuel inductionHypothesis =>
      have passed := afterGap_suffix text
      rw [readForms] at fails
      cases start : afterGap text with
      | nil =>
          rw [start] at fails
          cases fails
      | cons first others =>
          rw [start] at fails passed
          have leaves := @readDatum_leavesSuffix engine (readingFuel (first :: others)) 0
            (first :: others)
          dsimp only at fails
          generalize readDatum _ 0 (first :: others) = outcome at fails leaves
          cases leaves with
          | rejected isSuffix =>
              cases fails
              exact isSuffix.trans passed
          | @accepted form rest isSuffix shorter =>
              dsimp only [bind, Except.bind] at fails
              cases goesOn : readForms fuel rest with
              | error failure =>
                  rw [goesOn] at fails
                  cases fails
                  exact (inductionHypothesis goesOn).trans (isSuffix.trans passed)
              | ok forms =>
                  rw [goesOn] at fails
                  cases fails

/-- How many bytes of a text come before what was left of it. -/
def Failure.position
    (failure : Failure)
    (source : String) : Nat :=
  source.utf8ByteSize - (String.ofList failure.rest).utf8ByteSize

/--
What was left of a text is a suffix of it that starts between two characters, and whatever the
error says of a place is said of the place where it starts.
-/
structure Failure.PointsInto
    (failure : Failure)
    (source : String) : Prop where
  isSuffix : failure.rest <:+ source.toList
  isBoundary : String.Pos.Raw.IsValid source ⟨failure.position source⟩
  startsThere :
    Text.slice? source (failure.position source) source.utf8ByteSize =
      some (String.ofList failure.rest)
  isReported :
    ∃ cause,
      failure.toReadError source.toList =
          .around cause source.toList (failure.position source) ∧
        ∀ place, cause.place? = some place → place = failure.position source

/-- A failure is told around its own position. -/
theorem toReadError_eq_around
    (failure : Failure)
    (source : String) :
    ∃ cause,
      failure.toReadError source.toList =
          .around cause source.toList (failure.position source) ∧
        ∀ place, cause.place? = some place → place = failure.position source := by
  have sameSize : source.utf8ByteSize = Text.byteSize source.toList := by
    rw [← Text.utf8ByteSize_ofList, String.ofList_toList]
  rw [Failure.position, sameSize, Text.utf8ByteSize_ofList]
  refine ⟨_, rfl, ?_⟩
  obtain ⟨stumble, rest⟩ := failure
  dsimp only
  split <;> intro place names <;> cases names <;> rfl

/-- A failure that leaves an end of the source points into the source. -/
theorem Failure.pointsInto_of_suffix
    {failure : Failure}
    {source : String}
    (isSuffix : failure.rest <:+ source.toList) :
    failure.PointsInto source := by
  obtain ⟨before, whole⟩ := isSuffix
  obtain rfl : source = String.ofList (before ++ failure.rest) := by
    rw [whole, String.ofList_toList]
  have isPosition :
      failure.position (String.ofList (before ++ failure.rest)) = Text.byteSize before := by
    rw [Failure.position, Text.utf8ByteSize_ofList, Text.utf8ByteSize_ofList,
      Text.byteSize_append, Nat.add_sub_cancel]
  refine ⟨⟨before, whole⟩, ?_, ?_, toReadError_eq_around failure _⟩
  · rw [isPosition]
    exact Text.isValid_iff.mpr ⟨before, failure.rest, rfl, rfl⟩
  · have cut := Text.slice?_append before failure.rest []
    rw [List.append_nil] at cut
    rw [isPosition, Text.utf8ByteSize_ofList, Text.byteSize_append]
    exact cut

end Reader

open Reader

/--
Reading comes to an end.  At every depth a datum is read from a text in exactly one way, without any
fuel, and the reader comes to it with fuel in proportion to the length of the text: less of the text
is left, a suffix of it, and where the reader stumbles it reports a suffix of the text.  So the
loops over blanks and comments, over the items of a vector, over the elements of a list and over the
forms of a text end, after at most one turn more than the text has characters.  The place that an
error of either entry point names is a boundary, and what was left of the text starts there.
-/
theorem reading_ends_and_errors_point_to_what_is_left :
    (∀ (depth : Nat) (text : List Char),
        (∀ outcome, DatumRead depth text outcome ↔ outcome = datumAt depth text) ∧
          (∀ fuel, 3 * text.length < fuel → readDatum fuel depth text = datumAt depth text) ∧
          LeavesSuffix text (datumAt depth text)) ∧
      (∀ (depth : Nat) (text : List Char),
        EndsWith text (GapPassed text) (afterGap text) ∧
          EndsWith text (LoopRead itemsTurn (depth + 1) [] text) (itemsAt depth text) ∧
          EndsWith text (LoopRead listTurn (depth + 1) [] text) (tailAt depth false text) ∧
          EndsWith text (LoopRead formsTurn 0 [] text) (formsOf text)) ∧
      ∀ (source : String) (failure : Failure),
        (datumAt 0 source.toList = .error failure →
          readOne source = .error (failure.toReadError source.toList) ∧
            failure.PointsInto source) ∧
        (formsOf source.toList = .error failure →
          readAll source = .error (failure.toReadError source.toList) ∧
            failure.PointsInto source) := by
  refine ⟨fun depth text => ⟨isExactAt depth text, fun fuel enough => ?_, ?_⟩, ?_, ?_⟩
  · exact readDatum_eq_datumAt enough
  · exact datumAt_leavesSuffix depth text
  · intro depth text
    exact ⟨gapPassed_endsWith text, itemsRead_endsWith (isExactAt _) text,
      listRead_endsWith (isExactAt _) text, formsRead_endsWith (isExactAt _) text⟩
  · intro source failure
    constructor
    · intro fails
      have leaves := @datumAt_leavesSuffix engine 0 source.toList
      rw [fails] at leaves
      cases leaves with
      | rejected isSuffix =>
          refine ⟨?_, Failure.pointsInto_of_suffix isSuffix⟩
          rw [readOne_eq_conclude]
          exact congrArg (concludeOne source.toList) fails
    · intro fails
      refine ⟨?_, Failure.pointsInto_of_suffix (suffix_of_readForms fails)⟩
      rw [readAll_eq_formsOf, fails]
      rfl

/-- The failure that a reading ends with. -/
def Reader.failure? {Answer : Type} : Except Failure Answer → Option Failure
  | .ok _ => none
  | .error failure => some failure

/-- An outcome with a failure is that failure. -/
theorem Reader.eq_error_of_failure?
    {Answer : Type}
    {outcome : Except Failure Answer}
    {failure : Failure}
    (fails : failure? outcome = some failure) :
    outcome = .error failure := by
  cases outcome with
  | ok answer => cases fails
  | error other => rw [Option.some.inj fails]

/-- An escape that is none, in a list behind two characters of two bytes, and behind a form. -/
theorem unknown_escapes_behind_long_characters :
    (∃ failure : Failure,
        @readDatum .plain 60 0 "(é #| é |# \"ab\\q\")".toList = .error failure ∧
          @readOne .plain "(é #| é |# \"ab\\q\")" =
            .error (failure.toReadError "(é #| é |# \"ab\\q\")".toList) ∧
          failure.position "(é #| é |# \"ab\\q\")" = 16 ∧
          Text.slice? "(é #| é |# \"ab\\q\")" 16 20 = some "\\q\")") ∧
      ∃ failure : Failure,
        @readAll .plain "x #(é ; y\n\"\\q\")" =
            .error (failure.toReadError "x #(é ; y\n\"\\q\")".toList) ∧
          failure.position "x #(é ; y\n\"\\q\")" = 12 ∧
          Text.slice? "x #(é ; y\n\"\\q\")" 12 16 = some "\\q\")" := by
  have failsOne :
      @datumAt .plain 0 "(é #| é |# \"ab\\q\")".toList = .error ⟨.escape, "\\q\")".toList⟩ :=
    eq_error_of_failure? (by decide +kernel)
  have failsAll :
      @formsOf .plain "x #(é ; y\n\"\\q\")".toList = .error ⟨.escape, "\\q\")".toList⟩ :=
    eq_error_of_failure? (by decide +kernel)
  obtain ⟨ends, _, points⟩ := reading_ends_and_errors_point_to_what_is_left
  obtain ⟨reportedOne, pointsOne⟩ := (points _ _).1 failsOne
  obtain ⟨reportedAll, pointsAll⟩ := (points _ _).2 failsAll
  have enough : 3 * "(é #| é |# \"ab\\q\")".toList.length < 60 := by decide +kernel
  have placeOne :
      Failure.position ⟨.escape, "\\q\")".toList⟩ "(é #| é |# \"ab\\q\")" = 16 := by
    decide +kernel
  have placeAll :
      Failure.position ⟨.escape, "\\q\")".toList⟩ "x #(é ; y\n\"\\q\")" = 12 := by
    decide +kernel
  have startsOne := pointsOne.startsThere
  have startsAll := pointsAll.startsThere
  rw [placeOne] at startsOne
  rw [placeAll] at startsAll
  exact ⟨⟨_, ((ends 0 _).2.1 60 enough).trans failsOne, reportedOne, placeOne, startsOne⟩,
    ⟨_, reportedAll, placeAll, startsAll⟩⟩

end SmallScheme
