import SmallScheme.Reader.Opening

namespace SmallScheme.Reader

/-!
# Reading in loops

The reference for how reading comes to an end.  Blanks and comments, the items of a vector, the
elements of a list and the forms of a text are read turn by turn, with what was found so far at
hand.  No fuel is spent here: a reading is what can be derived in finitely many steps, and the turns
of each loop are counted.
-/

variable
  {engine : Regex.Engine}
  {Answer : Type}
  {text rest : List Char}
  {depth turns : Nat}

/-! ## Blanks and comments -/

/-- The text behind the first closing mark of a block comment. -/
def afterBlock? : List Char → Option (List Char)
  | [] => none
  | '|' :: '#' :: rest => some rest
  | _ :: rest => afterBlock? rest

/-- The text behind the run of blanks, the line comment or the block comment that it starts with. -/
def afterBlanks? : List Char → Option (List Char)
  | [] => none
  | '#' :: '|' :: inner => afterBlock? inner
  | character :: rest =>
      if Text.isLayout character then
        some (rest.dropWhile Text.isLayout)
      else if character = ';' then
        some (rest.dropWhile (· ≠ '\n'))
      else
        none

/-- The loop over blanks and comments: it takes so many turns, and this text is left. -/
inductive GapPassed : List Char → Nat → List Char → Prop
  | leave {text : List Char} :
      afterBlanks? text = none →
      GapPassed text 1 text
  | again {text next rest : List Char} {turns : Nat} :
      afterBlanks? text = some next →
      GapPassed next turns rest →
      GapPassed text (turns + 1) rest

theorem gapPassed_iff :
    GapPassed text turns rest ↔
      match afterBlanks? text with
      | none => turns = 1 ∧ rest = text
      | some next => ∃ others, turns = others + 1 ∧ GapPassed next others rest := by
  constructor
  · intro passed
    cases passed with
    | leave stops =>
        rw [stops]
        exact ⟨rfl, rfl⟩
    | again passes others =>
        rw [passes]
        exact ⟨_, rfl, others⟩
  · cases comes : afterBlanks? text with
    | none =>
        rintro ⟨rfl, rfl⟩
        exact .leave comes
    | some next =>
        rintro ⟨others, rfl, passed⟩
        exact .again comes passed

/-! ## Data -/

/-- What a turn of a loop over data comes to. -/
inductive Turn (Answer : Type)
  /-- The loop is left. -/
  | leave (outcome : Except Failure Answer)
  /-- A last datum is read, and it decides how the loop is left. -/
  | last (start : List Char) (conclude : Datum × List Char → Except Failure Answer)
  /-- A datum is read, and the loop goes on behind it. -/
  | next (start : List Char)

/-- A turn of the loop over the items of a vector. -/
def itemsTurn
    (found : List Datum)
    (text : List Char) : Turn (List Datum × List Char) :=
  match upcoming (afterGap text) with
  | .nothing => .leave (.error ⟨.form, []⟩)
  | .close rest => .leave (.ok (found, rest))
  | .item start => .next start

/-- A turn of the loop over the elements of a list. -/
def listTurn
    (found : List Datum)
    (text : List Char) : Turn (Datum × List Char) :=
  match upcoming (afterGap text) with
  | .nothing => .leave (.error ⟨.form, []⟩)
  | .close rest => .leave (.ok (Datum.ofList found, rest))
  | .item start =>
      match afterDot? start with
      | some rest =>
          if found.isEmpty then
            .leave (.error ⟨.form, start⟩)
          else
            .last rest fun (tail, after) => closeAfter (Datum.listWithTail found tail) after
      | none => .next start

/-- A turn of the loop over the forms of a text. -/
def formsTurn
    (found : List Datum)
    (text : List Char) : Turn (List Datum) :=
  match afterGap text with
  | [] => .leave (.ok found)
  | start => .next start

/-- What a part of a text without data in it is read as. -/
def Opening.literal? [Regex.Engine] : Opening → Option (Except Failure (Datum × List Char))
  | .text rest => some (readTextDatum rest)
  | .regex rest => some (readRegex rest)
  | .character rest => some (readCharacter rest)
  | .constant rest => some (readConstant ('#' :: rest))
  | .atom start => some (readAtom start)
  | _ => none

mutual

/-- The reading of one datum at a nesting depth. -/
inductive DatumRead [Regex.Engine] : Nat → List Char → Except Failure (Datum × List Char) → Prop
  | tooDeep {depth : Nat} {text : List Char} :
      maxNesting ≤ depth →
      DatumRead depth text (.error ⟨.nesting, text⟩)
  | literal {depth : Nat} {text : List Char} {outcome : Except Failure (Datum × List Char)} :
      depth < maxNesting →
      (opening (afterGap text)).literal? = some outcome →
      DatumRead depth text outcome
  | marked
      {depth : Nat} {mark : Mark} {text rest : List Char}
      {outcome : Except Failure (Datum × List Char)} :
      depth < maxNesting →
      opening (afterGap text) = .mark mark rest →
      DatumRead (depth + 1) rest outcome →
      DatumRead depth text (do
        let (inner, last) ← outcome
        return (.marked mark inner, last))
  | list
      {depth turns : Nat} {text rest : List Char}
      {outcome : Except Failure (Datum × List Char)} :
      depth < maxNesting →
      opening (afterGap text) = .list rest →
      LoopRead listTurn (depth + 1) [] rest turns outcome →
      DatumRead depth text outcome
  | vector
      {depth turns : Nat} {text rest : List Char}
      {outcome : Except Failure (List Datum × List Char)} :
      depth < maxNesting →
      opening (afterGap text) = .vector rest →
      LoopRead itemsTurn (depth + 1) [] rest turns outcome →
      DatumRead depth text (do
        let (items, after) ← outcome
        return (.vector items, after))
  | bytevector
      {depth turns : Nat} {text rest : List Char}
      {outcome : Except Failure (List Datum × List Char)} :
      depth < maxNesting →
      opening (afterGap text) = .bytevector rest →
      LoopRead itemsTurn (depth + 1) [] rest turns outcome →
      DatumRead depth text (do
        let (items, after) ← outcome
        bytesOf rest items after)

/--
A loop over data, each of them read at the given depth, with what was found so far: it takes so many
turns and is left in this way.
-/
inductive LoopRead [Regex.Engine] :
    {Answer : Type} →
    (List Datum → List Char → Turn Answer) →
    Nat → List Datum → List Char → Nat → Except Failure Answer → Prop
  | leave
      {Answer : Type} {turn : List Datum → List Char → Turn Answer}
      {depth : Nat} {found : List Datum} {text : List Char} {outcome : Except Failure Answer} :
      turn found text = .leave outcome →
      LoopRead turn depth found text 1 outcome
  | last
      {Answer : Type} {turn : List Datum → List Char → Turn Answer}
      {depth : Nat} {found : List Datum} {text start : List Char}
      {conclude : Datum × List Char → Except Failure Answer}
      {outcome : Except Failure (Datum × List Char)} :
      turn found text = .last start conclude →
      DatumRead depth start outcome →
      LoopRead turn depth found text 1 (outcome >>= conclude)
  | failed
      {Answer : Type} {turn : List Datum → List Char → Turn Answer}
      {depth : Nat} {found : List Datum} {text start : List Char} {failure : Failure} :
      turn found text = .next start →
      DatumRead depth start (.error failure) →
      LoopRead turn depth found text 1 (.error failure)
  | again
      {Answer : Type} {turn : List Datum → List Char → Turn Answer}
      {depth turns : Nat} {found : List Datum} {datum : Datum} {text start rest : List Char}
      {outcome : Except Failure Answer} :
      turn found text = .next start →
      DatumRead depth start (.ok (datum, rest)) →
      LoopRead turn depth (found ++ [datum]) rest turns outcome →
      LoopRead turn depth found text (turns + 1) outcome

end

theorem loopRead_iff
    {turn : List Datum → List Char → Turn Answer}
    {found : List Datum}
    {outcome : Except Failure Answer} :
    LoopRead turn depth found text turns outcome ↔
      match turn found text with
      | .leave left => turns = 1 ∧ outcome = left
      | .last start conclude =>
          turns = 1 ∧ ∃ inner, DatumRead depth start inner ∧ outcome = inner >>= conclude
      | .next start =>
          (turns = 1 ∧
            ∃ failure, DatumRead depth start (.error failure) ∧ outcome = .error failure) ∨
          ∃ others, turns = others + 1 ∧
            ∃ datum rest, DatumRead depth start (.ok (datum, rest)) ∧
              LoopRead turn depth (found ++ [datum]) rest others outcome := by
  constructor
  · intro reads
    cases reads with
    | leave leaves =>
        rw [leaves]
        exact ⟨rfl, rfl⟩
    | last starts ends =>
        rw [starts]
        exact ⟨rfl, _, ends, rfl⟩
    | failed starts fails =>
        rw [starts]
        exact .inl ⟨rfl, _, fails, rfl⟩
    | again starts accepts others =>
        rw [starts]
        exact .inr ⟨_, rfl, _, _, accepts, others⟩
  · cases comes : turn found text with
    | leave left =>
        rintro ⟨rfl, rfl⟩
        exact .leave comes
    | last start conclude =>
        rintro ⟨rfl, inner, ends, rfl⟩
        exact .last comes ends
    | next start =>
        rintro (⟨rfl, failure, fails, rfl⟩ | ⟨others, rfl, datum, rest, accepts, goesOn⟩)
        · exact .failed comes fails
        · exact .again comes accepts goesOn

theorem datumRead_iff
    {outcome : Except Failure (Datum × List Char)} :
    DatumRead depth text outcome ↔
      if maxNesting ≤ depth then
        outcome = .error ⟨.nesting, text⟩
      else
        match opening (afterGap text) with
        | .mark mark rest =>
            ∃ read, DatumRead (depth + 1) rest read ∧
              outcome = do
                let (inner, last) ← read
                return (.marked mark inner, last)
        | .list rest => ∃ turns, LoopRead listTurn (depth + 1) [] rest turns outcome
        | .vector rest =>
            ∃ read, (∃ turns, LoopRead itemsTurn (depth + 1) [] rest turns read) ∧
              outcome = do
                let (items, after) ← read
                return (.vector items, after)
        | .bytevector rest =>
            ∃ read, (∃ turns, LoopRead itemsTurn (depth + 1) [] rest turns read) ∧
              outcome = do
                let (items, after) ← read
                bytesOf rest items after
        | announced => announced.literal? = some outcome := by
  constructor
  · intro reads
    cases reads with
    | tooDeep deep => rw [if_pos deep]
    | literal shallow isLiteral =>
        rw [if_neg (Nat.not_le.mpr shallow)]
        split
        case h_5 => exact isLiteral
        case h_1 opens | h_2 opens | h_3 opens | h_4 opens =>
          rw [opens] at isLiteral
          cases isLiteral
    | marked shallow opens inner =>
        rw [if_neg (Nat.not_le.mpr shallow), opens]
        exact ⟨_, inner, rfl⟩
    | list shallow opens loop =>
        rw [if_neg (Nat.not_le.mpr shallow), opens]
        exact ⟨_, loop⟩
    | vector shallow opens loop =>
        rw [if_neg (Nat.not_le.mpr shallow), opens]
        exact ⟨_, ⟨_, loop⟩, rfl⟩
    | bytevector shallow opens loop =>
        rw [if_neg (Nat.not_le.mpr shallow), opens]
        exact ⟨_, ⟨_, loop⟩, rfl⟩
  · split
    case isTrue deep =>
      rintro rfl
      exact .tooDeep deep
    case isFalse notDeep =>
      have shallow := Nat.not_le.mp notDeep
      split
      case h_1 opens =>
        rintro ⟨read, inner, rfl⟩
        exact .marked shallow opens inner
      case h_2 opens =>
        rintro ⟨turns, loop⟩
        exact .list shallow opens loop
      case h_3 opens =>
        rintro ⟨read, ⟨turns, loop⟩, rfl⟩
        exact .vector shallow opens loop
      case h_4 opens =>
        rintro ⟨read, ⟨turns, loop⟩, rfl⟩
        exact .bytevector shallow opens loop
      case h_5 => exact .literal shallow

/-! ## Loops that end -/

/--
A loop over a text is left in this way and in no other, after at most one turn more than the text
has characters.
-/
def EndsWith
    {Answer : Type}
    (text : List Char)
    (loop : Nat → Answer → Prop)
    (answer : Answer) : Prop :=
  ∃ turns ≤ text.length + 1, ∀ count found, loop count found ↔ count = turns ∧ found = answer

namespace EndsWith

variable
  {loop next : Nat → Answer → Prop}
  {answer found : Answer}

theorem leave
    (leaves : ∀ count found, loop count found ↔ count = 1 ∧ found = answer) :
    EndsWith text loop answer :=
  ⟨1, Nat.le_add_left _ _, leaves⟩

/-- A loop ends if it goes on with less text as a loop that ends. -/
theorem again
    (ends : EndsWith rest next answer)
    (shorter : rest.length < text.length)
    (goesOn : ∀ count found, loop count found ↔ ∃ turns, count = turns + 1 ∧ next turns found) :
    EndsWith text loop answer := by
  obtain ⟨turns, few, only⟩ := ends
  refine ⟨turns + 1, by omega, fun count found => ?_⟩
  rw [goesOn]
  constructor
  · rintro ⟨turnsAfter, rfl, loops⟩
    obtain ⟨rfl, rfl⟩ := (only _ _).mp loops
    exact ⟨rfl, rfl⟩
  · rintro ⟨rfl, rfl⟩
    exact ⟨turns, rfl, (only _ _).mpr ⟨rfl, rfl⟩⟩

theorem exists_iff
    (ends : EndsWith text loop answer) :
    (∃ count, loop count found) ↔ found = answer := by
  obtain ⟨turns, _, only⟩ := ends
  simp only [only, exists_eq_left]

end EndsWith

end SmallScheme.Reader
