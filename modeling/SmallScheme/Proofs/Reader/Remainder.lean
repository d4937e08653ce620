import SmallScheme.Proofs.Reader.Gap
import SmallScheme.Proofs.Reader.Limit

namespace SmallScheme.Reader

/-!
# What is left of a text

Whatever is read, a suffix of the text is left, and something of the text has been taken up.  Where
the reader stumbles, what it reports as left is a suffix as well.  The proof goes through the parts
of the reader that read no data, and then by induction on the fuel through the five functions that
do.
-/

variable
  {engine : Regex.Engine}
  {First Answer : Type}
  {text longer rest : List Char}
  {depth fuel : Nat}

/-- How a reading ends, where a suffix of the text is left, and less than all of it on success. -/
inductive LeavesSuffix (text : List Char) : Except Failure (Answer × List Char) → Prop
  | accepted {answer : Answer} {rest : List Char} :
      rest <:+ text →
      rest.length < text.length →
      LeavesSuffix text (.ok (answer, rest))
  | rejected {failure : Failure} :
      failure.rest <:+ text →
      LeavesSuffix text (.error failure)

namespace LeavesSuffix

variable
  {outcome : Except Failure (Answer × List Char)}
  {first : Except Failure (First × List Char)}
  {next : First × List Char → Except Failure (Answer × List Char)}

/-- What is left of a text is left of a longer one, too. -/
theorem of_suffix
    (leaves : LeavesSuffix text outcome)
    (within : text <:+ longer) :
    LeavesSuffix longer outcome := by
  cases leaves with
  | accepted isSuffix shorter =>
      exact .accepted (isSuffix.trans within) (shorter.trans_le within.length_le)
  | rejected isSuffix => exact .rejected (isSuffix.trans within)

/-- One character more in front is read over. -/
theorem cons
    (leaves : LeavesSuffix text outcome)
    (character : Char) :
    LeavesSuffix (character :: text) outcome :=
  leaves.of_suffix (List.suffix_cons character text)

/-- Readings that follow one another each leave a part of what they were given. -/
theorem bind
    (leaves : LeavesSuffix text first)
    (goesOn :
      ∀ found rest,
        rest <:+ text → rest.length < text.length → LeavesSuffix text (next (found, rest))) :
    LeavesSuffix text (first >>= next) := by
  cases leaves with
  | accepted isSuffix shorter => exact goesOn _ _ isSuffix shorter
  | rejected isSuffix => exact .rejected isSuffix

/-- What comes after a reading matters only where less of the text is left. -/
theorem bind_congr
    {after other : First × List Char → Except Failure Answer}
    (leaves : LeavesSuffix text first)
    (same : ∀ found rest, rest.length < text.length → after (found, rest) = other (found, rest)) :
    first >>= after = first >>= other := by
  cases leaves with
  | accepted _ shorter => exact same _ _ shorter
  | rejected => rfl

/-- Something has been read, so that less of the text is left. -/
theorem length_lt
    {answer : Answer}
    (leaves : LeavesSuffix text (.ok (answer, rest))) :
    rest.length < text.length := by
  cases leaves with
  | accepted _ shorter => exact shorter

end LeavesSuffix

/-! Parts of the reader that read no data. -/

/-- A text ends at a quotation mark of the text that it is read from. -/
theorem readText_leavesSuffix
    (joining : Bool)
    (text : List Char) :
    LeavesSuffix text (readText joining text) := by
  fun_induction readText joining text with
  | case1 => exact .rejected List.suffix_rfl
  | case2 _ _ _ _ inductionHypothesis =>
      exact inductionHypothesis.cons _
  | case3 => exact .accepted (List.suffix_cons _ _) (Nat.lt_succ_self _)
  | case4 => exact .rejected List.nil_suffix
  | case5 _ _ _ _ inductionHypothesis =>
      exact (inductionHypothesis.cons _).cons _
  | case6 _ _ _ _ _ _ _ _ inductionHypothesis =>
      exact ((inductionHypothesis.cons _).cons _).bind fun _ _ => .accepted
  | case7 => exact .rejected List.suffix_rfl
  | case8 _ _ _ _ _ _ inductionHypothesis =>
      exact (inductionHypothesis.cons _).bind fun _ _ => .accepted

/-- A pattern ends at a slash of the text that it is read from. -/
theorem readPattern_leavesSuffix
    (text : List Char) :
    LeavesSuffix text (readPattern text) := by
  fun_induction readPattern text with
  | case1 => exact .rejected List.suffix_rfl
  | case2 => exact .accepted (List.suffix_cons _ _) (Nat.lt_succ_self _)
  | case3 => exact .rejected List.nil_suffix
  | case4 _ _ inductionHypothesis =>
      refine ((inductionHypothesis.cons _).cons _).bind fun _ _ isSuffix shorter => ?_
      dsimp only
      split <;> exact .accepted isSuffix shorter
  | case5 _ _ _ _ _ inductionHypothesis =>
      exact (inductionHypothesis.cons _).bind fun _ _ => .accepted

/-- What follows the quotation mark is left, or what could not be read. -/
theorem readTextDatum_leavesSuffix
    (text : List Char) :
    LeavesSuffix text (readTextDatum text) :=
  (readText_leavesSuffix false text).bind fun _ _ => .accepted

/-- What follows the slash is left, or what could not be read. -/
theorem readRegex_leavesSuffix
    (text : List Char) :
    LeavesSuffix text (readRegex text) := by
  refine (readPattern_leavesSuffix text).bind fun _ _ isSuffix shorter => ?_
  dsimp only
  split
  · exact .accepted isSuffix shorter
  · exact .rejected List.suffix_rfl

/-- Behind a token the text is as it was. -/
theorem spanToken_suffix
    (text : List Char) :
    (spanToken text).2 <:+ text := by
  rw [spanToken, List.span_eq_takeWhile_dropWhile]
  exact List.dropWhile_suffix _

/-- The name of a character is read over, or it is where reading stops. -/
theorem readCharacter_leavesSuffix
    (text : List Char) :
    LeavesSuffix text (readCharacter text) := by
  cases text with
  | nil => exact .rejected List.suffix_rfl
  | cons first others =>
      have isSuffix := spanToken_suffix others
      have accepted (datum : Datum) :
          LeavesSuffix (first :: others) (.ok (datum, (spanToken others).2)) :=
        .accepted (isSuffix.trans (List.suffix_cons _ _)) (Nat.lt_succ_of_le isSuffix.length_le)
      unfold readCharacter
      dsimp only
      split
      · exact accepted _
      · split
        · exact accepted _
        · exact .rejected List.suffix_rfl

/-- The name of a constant is read over, or its hash is where reading stops. -/
theorem readConstant_leavesSuffix
    (text : List Char) :
    LeavesSuffix ('#' :: text) (readConstant ('#' :: text)) := by
  have isSuffix := spanToken_suffix text
  have accepted (datum : Datum) :
      LeavesSuffix ('#' :: text) (.ok (datum, (spanToken text).2)) :=
    .accepted (isSuffix.trans (List.suffix_cons _ _)) (Nat.lt_succ_of_le isSuffix.length_le)
  unfold readConstant
  dsimp only [List.drop_succ_cons, List.drop_zero]
  split
  case h_5 =>
    split
    · split
      · exact accepted _
      · exact .rejected List.suffix_rfl
    · exact .rejected List.suffix_rfl
  case h_6 => exact .rejected List.suffix_rfl
  all_goals exact accepted _

/-- Token and remainder are the text. -/
theorem length_spanToken
    (text : List Char) :
    (spanToken text).1.length + (spanToken text).2.length = text.length := by
  rw [spanToken, List.span_eq_takeWhile_dropWhile, ← List.length_append,
    List.takeWhile_append_dropWhile]

/-- An atom is read over, or it is where reading stops. -/
theorem readAtom_leavesSuffix
    (text : List Char) :
    LeavesSuffix text (readAtom text) := by
  have spanned := length_spanToken text
  unfold readAtom
  dsimp only
  split
  case isTrue => exact .rejected List.suffix_rfl
  case isFalse notEmptyOrDot =>
    simp only [Bool.or_eq_true, decide_eq_true_eq, not_or, List.isEmpty_iff] at notEmptyOrDot
    have nonempty := List.length_pos_iff.mpr notEmptyOrDot.1
    have accepted (datum : Datum) : LeavesSuffix text (.ok (datum, (spanToken text).2)) :=
      .accepted (spanToken_suffix text) (by omega)
    split
    · exact accepted _
    · exact .rejected List.suffix_rfl
    · exact accepted _

/-- The parenthesis is read over, or what stands in its place is left. -/
theorem closeAfter_leavesSuffix
    (tail : Datum)
    (text : List Char) :
    LeavesSuffix text (closeAfter tail text) := by
  have passed := afterGap_suffix text
  unfold closeAfter
  obtain ⟨_, comes⟩ | ⟨rest, shape, comes⟩ | ⟨_, _, comes⟩ := upcoming_spec (afterGap text)
  · rw [comes]
    exact .rejected passed
  · rw [comes]
    rw [shape] at passed
    exact .accepted ((List.suffix_cons _ _).trans passed) passed.length_le
  · rw [comes]
    exact .rejected passed

/-- Where items are no bytes, the whole vector is left. -/
theorem bytesOf_leavesSuffix
    {items : List Datum}
    {start : List Char}
    (isSuffix : rest <:+ '#' :: 'u' :: '8' :: '(' :: start)
    (shorter : rest.length < ('#' :: 'u' :: '8' :: '(' :: start).length) :
    LeavesSuffix ('#' :: 'u' :: '8' :: '(' :: start) (bytesOf start items rest) := by
  unfold bytesOf
  split
  · exact .accepted isSuffix shorter
  · exact .rejected List.suffix_rfl

/-! Readings that note what is begun. -/

namespace Reading

/-- The reading leaves a suffix, and every datum that is begun in its course is begun at one. -/
structure LeavesSuffix
    (text : List Char)
    (reading : Reading Failure (Answer × List Char)) : Prop where
  outcome : Reader.LeavesSuffix text reading.outcome
  begun : ∀ beginning ∈ reading.begun, beginning.text <:+ text

namespace LeavesSuffix

variable
  {reading : Reading Failure (Answer × List Char)}
  {first : Reading Failure (First × List Char)}
  {next : First × List Char → Reading Failure (Answer × List Char)}

/-- What the limited reader leaves it leaves without a limit. -/
theorem plain
    {outcome : Except Failure (Answer × List Char)}
    (leaves : Reader.LeavesSuffix text outcome) :
    (Reading.plain outcome).LeavesSuffix text :=
  ⟨leaves, nofun⟩

theorem of_suffix
    (leaves : reading.LeavesSuffix text)
    (within : text <:+ longer) :
    reading.LeavesSuffix longer :=
  ⟨leaves.outcome.of_suffix within, fun beginning begun =>
    (leaves.begun beginning begun).trans within⟩

/-- That a datum has begun does not matter for what is left. -/
theorem beginning
    (leaves : reading.LeavesSuffix text)
    (depth : Nat) :
    (reading.beginning depth text).LeavesSuffix text := by
  refine ⟨leaves.outcome, fun beginning begun => ?_⟩
  rcases List.mem_cons.mp begun with rfl | begun
  · exact List.suffix_rfl
  · exact leaves.begun beginning begun

theorem bind
    (leaves : first.LeavesSuffix text)
    (goesOn :
      ∀ found rest,
        rest <:+ text → rest.length < text.length → (next (found, rest)).LeavesSuffix text) :
    (first >>= next).LeavesSuffix text := by
  obtain ⟨outcome, begun⟩ := first
  obtain ⟨leaves, within⟩ := leaves
  cases leaves with
  | @accepted found rest isSuffix shorter =>
      have others := goesOn found rest isSuffix shorter
      refine ⟨others.outcome, fun beginning begun => ?_⟩
      rcases List.mem_append.mp begun with begun | begun
      · exact within beginning begun
      · exact others.begun beginning begun
  | rejected isSuffix => exact ⟨.rejected isSuffix, within⟩

theorem length_lt
    {answer : Answer}
    (leaves : reading.LeavesSuffix text)
    (accepted : reading.outcome = .ok (answer, rest)) :
    rest.length < text.length :=
  Reader.LeavesSuffix.length_lt (accepted ▸ leaves.outcome)

/-- What is left is left under the limit, too, unless that is exceeded. -/
theorem limited
    (leaves : reading.LeavesSuffix text) :
    Reader.LeavesSuffix text reading.limited := by
  unfold Reading.limited
  split
  case h_1 beginning isFirst =>
    exact .rejected (leaves.begun beginning (List.mem_of_find?_eq_some isFirst))
  case h_2 => exact leaves.outcome

end LeavesSuffix

end Reading

open Reading

/-! The five functions of the unlimited reader. -/

/-- With so much fuel every function leaves a suffix of the text. -/
structure Progresses [Regex.Engine] (fuel : Nat) : Prop where
  datum : ∀ depth text, (Unlimited.readDatum fuel depth text).LeavesSuffix text
  marked : ∀ depth mark text, (Unlimited.readMarked fuel depth mark text).LeavesSuffix text
  items : ∀ depth text, (Unlimited.readItems fuel depth text).LeavesSuffix text
  tail : ∀ depth started text, (Unlimited.readTail fuel depth started text).LeavesSuffix text
  element : ∀ depth text, (Unlimited.readElement fuel depth text).LeavesSuffix text

namespace Progresses

/-- A datum with more fuel is read by parts with less. -/
theorem datum_succ
    (holds : Progresses fuel)
    (depth : Nat)
    (text : List Char) :
    (Unlimited.readDatum (fuel + 1) depth text).LeavesSuffix text := by
  have passed : (opening (afterGap text)).whole <:+ text := by
    rw [whole_opening]
    exact afterGap_suffix text
  rw [Unlimited.readDatum]
  refine (Reading.LeavesSuffix.of_suffix ?_ passed).beginning depth
  generalize opening (afterGap text) = announced
  cases announced with
  | mark mark rest => exact (holds.marked _ _ _).of_suffix (List.suffix_append _ _)
  | list rest => exact (holds.tail _ _ _).of_suffix (List.suffix_cons _ _)
  | text rest => exact .plain ((readTextDatum_leavesSuffix rest).cons _)
  | vector rest =>
      have items := (holds.items depth rest).of_suffix (List.suffix_append ['#', '('] rest)
      exact items.bind fun _ _ isSuffix shorter => .plain (.accepted isSuffix shorter)
  | bytevector rest =>
      have items :=
        (holds.items depth rest).of_suffix (List.suffix_append ['#', 'u', '8', '('] rest)
      exact items.bind fun _ _ isSuffix shorter => .plain (bytesOf_leavesSuffix isSuffix shorter)
  | regex rest => exact .plain (((readRegex_leavesSuffix rest).cons _).cons _)
  | character rest => exact .plain (((readCharacter_leavesSuffix rest).cons _).cons _)
  | constant rest => exact .plain (readConstant_leavesSuffix rest)
  | atom start => exact .plain (readAtom_leavesSuffix start)

/-- Behind a mark a datum is read. -/
theorem marked_succ
    (holds : Progresses fuel)
    (depth : Nat)
    (mark : Mark)
    (text : List Char) :
    (Unlimited.readMarked (fuel + 1) depth mark text).LeavesSuffix text := by
  rw [Unlimited.readMarked]
  refine (holds.datum _ _).bind fun _ _ isSuffix shorter => ?_
  exact .plain (.accepted isSuffix shorter)

/-- Items are read one after the other. -/
theorem items_succ
    (holds : Progresses fuel)
    (depth : Nat)
    (text : List Char) :
    (Unlimited.readItems (fuel + 1) depth text).LeavesSuffix text := by
  have passed := afterGap_suffix text
  rw [Unlimited.readItems]
  obtain ⟨_, comes⟩ | ⟨rest, shape, comes⟩ | ⟨_, _, comes⟩ := upcoming_spec (afterGap text)
  all_goals rw [comes]
  · exact .plain (.rejected List.nil_suffix)
  · rw [shape] at passed
    exact .plain (.accepted ((List.suffix_cons _ _).trans passed) passed.length_le)
  · refine ((holds.datum _ _).of_suffix passed).bind fun item afterItem isSuffix _ => ?_
    refine ((holds.items _ afterItem).of_suffix isSuffix).bind fun _ _ isSuffix shorter => ?_
    exact .plain (.accepted isSuffix shorter)

/-- The rest of a list is read pair by pair. -/
theorem tail_succ
    (holds : Progresses fuel)
    (depth : Nat)
    (started : Bool)
    (text : List Char) :
    (Unlimited.readTail (fuel + 1) depth started text).LeavesSuffix text := by
  have passed := afterGap_suffix text
  rw [Unlimited.readTail]
  obtain ⟨_, comes⟩ | ⟨rest, shape, comes⟩ | ⟨_, _, comes⟩ := upcoming_spec (afterGap text)
  all_goals
    rw [comes]
    dsimp only
  · exact .plain (.rejected List.nil_suffix)
  · rw [shape] at passed
    exact .plain (.accepted ((List.suffix_cons _ _).trans passed) passed.length_le)
  · cases dotted : afterDot? (afterGap text) with
    | none => exact (holds.element _ _).of_suffix passed
    | some afterDot =>
        cases started with
        | false => exact .plain (.rejected passed)
        | true =>
            obtain ⟨shape, _⟩ := afterDot?_eq_some_iff.mp dotted
            rw [shape] at passed
            have behind := (List.suffix_cons _ _).trans passed
            refine ((holds.datum _ _).of_suffix behind).bind fun tail afterTail isSuffix _ => ?_
            exact .plain ((closeAfter_leavesSuffix tail afterTail).of_suffix isSuffix)

/-- An item is read as a datum. -/
theorem element_succ
    (holds : Progresses fuel)
    (depth : Nat)
    (text : List Char) :
    (Unlimited.readElement (fuel + 1) depth text).LeavesSuffix text := by
  rw [Unlimited.readElement]
  refine (holds.datum _ _).bind fun head afterHead isSuffix _ => ?_
  refine ((holds.tail _ _ afterHead).of_suffix isSuffix).bind fun _ _ isSuffix shorter => ?_
  exact .plain (.accepted isSuffix shorter)

end Progresses

/-- With every amount of fuel, by the fuel. -/
theorem progresses
    (fuel : Nat) :
    Progresses fuel := by
  induction fuel with
  | zero =>
      constructor <;> intros <;>
        simp only [Unlimited.readDatum, Unlimited.readMarked, Unlimited.readItems,
          Unlimited.readTail, Unlimited.readElement] <;>
        exact .plain (.rejected List.suffix_rfl)
  | succ fuel inductionHypothesis =>
      exact ⟨inductionHypothesis.datum_succ, inductionHypothesis.marked_succ,
        inductionHypothesis.items_succ, inductionHypothesis.tail_succ,
        inductionHypothesis.element_succ⟩

/-! The reader. -/

/-- The reader moves forward and leaves a part of the text. -/
theorem readDatum_leavesSuffix
    (fuel depth : Nat)
    (text : List Char) :
    LeavesSuffix text (readDatum fuel depth text) := by
  rw [(isLimited fuel).datum]
  exact ((progresses fuel).datum depth text).limited

end SmallScheme.Reader
