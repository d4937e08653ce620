import SmallScheme.Proofs.Reader.Remainder

namespace SmallScheme.Reader

/-!
# The reader goes on

Whatever is read, less of the text is left after it.  So fuel in proportion to the length of a text
suffices for it, and more fuel makes no difference.  With fuel that suffices the functions of the
reader are told by equations in which no fuel is counted.
-/

variable
  {engine : Regex.Engine}
  {text rest : List Char}
  {datum : Datum}
  {depth fuel : Nat}

open Reading

/-! Fuel that suffices. -/

/-- With so much fuel each function reads a text that is short enough as with any more fuel. -/
structure Suffices [Regex.Engine] (fuel : Nat) : Prop where
  datum :
    ∀ {depth text} more,
      3 * text.length + 1 ≤ fuel →
      Unlimited.readDatum (fuel + more) depth text = Unlimited.readDatum fuel depth text
  marked :
    ∀ {depth mark text} more,
      3 * text.length + 2 ≤ fuel →
      Unlimited.readMarked (fuel + more) depth mark text = Unlimited.readMarked fuel depth mark text
  items :
    ∀ {depth text} more,
      3 * text.length + 2 ≤ fuel →
      Unlimited.readItems (fuel + more) depth text = Unlimited.readItems fuel depth text
  tail :
    ∀ {depth started text} more,
      3 * text.length + 3 ≤ fuel →
      Unlimited.readTail (fuel + more) depth started text =
        Unlimited.readTail fuel depth started text
  element :
    ∀ {depth text} more,
      3 * text.length + 2 ≤ fuel →
      Unlimited.readElement (fuel + more) depth text = Unlimited.readElement fuel depth text

namespace Suffices

/-- More fuel does not matter for a datum, if it does not for the parts. -/
theorem datum_succ
    (holds : Suffices fuel)
    (more : Nat)
    (enough : 3 * text.length + 1 ≤ fuel + 1) :
    Unlimited.readDatum (fuel + 1 + more) depth text =
      Unlimited.readDatum (fuel + 1) depth text := by
  have passed := length_afterGap_le text
  have opens := length_rest_opening (afterGap text)
  rw [Nat.add_right_comm, Unlimited.readDatum, Unlimited.readDatum]
  congr 1
  generalize opening (afterGap text) = announced at opens
  cases announced with
  | mark mark start =>
      simp only [Opening.rest, reduceCtorEq, or_false] at opens
      exact holds.marked more (by omega)
  | list start =>
      simp only [Opening.rest, reduceCtorEq, or_false] at opens
      exact holds.tail more (by omega)
  | text start => rfl
  | vector start =>
      simp only [Opening.rest, reduceCtorEq, or_false] at opens
      simp only [holds.items more (show 3 * start.length + 2 ≤ fuel from by omega)]
  | bytevector start =>
      simp only [Opening.rest, reduceCtorEq, or_false] at opens
      simp only [holds.items more (show 3 * start.length + 2 ≤ fuel from by omega)]
  | regex start => rfl
  | character start => rfl
  | constant start => rfl
  | atom start => rfl

/-- More fuel does not matter behind a mark. -/
theorem marked_succ
    {mark : Mark}
    (holds : Suffices fuel)
    (more : Nat)
    (enough : 3 * text.length + 2 ≤ fuel + 1) :
    Unlimited.readMarked (fuel + 1 + more) depth mark text =
      Unlimited.readMarked (fuel + 1) depth mark text := by
  rw [Nat.add_right_comm, Unlimited.readMarked, Unlimited.readMarked,
    holds.datum more (by omega)]

/-- More fuel does not matter for items. -/
theorem items_succ
    (holds : Suffices fuel)
    (more : Nat)
    (enough : 3 * text.length + 2 ≤ fuel + 1) :
    Unlimited.readItems (fuel + 1 + more) depth text =
      Unlimited.readItems (fuel + 1) depth text := by
  have passed := length_afterGap_le text
  rw [Nat.add_right_comm, Unlimited.readItems, Unlimited.readItems]
  obtain ⟨_, comes⟩ | ⟨after, _, comes⟩ | ⟨_, _, comes⟩ := upcoming_spec (afterGap text)
  · rw [comes]
  · rw [comes]
  · rw [comes]
    dsimp only
    rw [holds.datum more (by omega)]
    refine bind_congr_of_outcome ?_
    rintro ⟨item, afterItem⟩ reads
    have shorter := ((progresses fuel).datum _ _).length_lt reads
    dsimp only
    rw [holds.items more (by omega)]

/-- More fuel does not matter for the rest of a list. -/
theorem tail_succ
    {started : Bool}
    (holds : Suffices fuel)
    (more : Nat)
    (enough : 3 * text.length + 3 ≤ fuel + 1) :
    Unlimited.readTail (fuel + 1 + more) depth started text =
      Unlimited.readTail (fuel + 1) depth started text := by
  have passed := length_afterGap_le text
  rw [Nat.add_right_comm, Unlimited.readTail, Unlimited.readTail]
  obtain ⟨_, comes⟩ | ⟨after, _, comes⟩ | ⟨_, _, comes⟩ := upcoming_spec (afterGap text)
  · rw [comes]
  · rw [comes]
  · rw [comes]
    dsimp only
    cases dotted : afterDot? (afterGap text) with
    | none => exact holds.element more (by omega)
    | some afterDot =>
        obtain ⟨shape, _⟩ := afterDot?_eq_some_iff.mp dotted
        rw [shape, List.length_cons] at passed
        dsimp only
        rw [holds.datum more (by omega)]

/-- More fuel does not matter for an item. -/
theorem element_succ
    (holds : Suffices fuel)
    (more : Nat)
    (enough : 3 * text.length + 2 ≤ fuel + 1) :
    Unlimited.readElement (fuel + 1 + more) depth text =
      Unlimited.readElement (fuel + 1) depth text := by
  rw [Nat.add_right_comm, Unlimited.readElement, Unlimited.readElement,
    holds.datum more (by omega)]
  refine bind_congr_of_outcome ?_
  rintro ⟨head, afterHead⟩ reads
  have shorter := ((progresses fuel).datum _ _).length_lt reads
  dsimp only
  rw [holds.tail more (by omega)]

end Suffices

/-- With every amount of fuel, by the fuel. -/
theorem suffices_fuel
    (fuel : Nat) :
    Suffices fuel := by
  induction fuel with
  | zero => constructor <;> intros <;> omega
  | succ fuel inductionHypothesis =>
      exact ⟨inductionHypothesis.datum_succ, inductionHypothesis.marked_succ,
        inductionHypothesis.items_succ, inductionHypothesis.tail_succ,
        inductionHypothesis.element_succ⟩

/-! Enough fuel for a text. -/

/-- The length of a text bounds the fuel that reading a datum takes. -/
theorem unlimited_readDatum_enough
    (depth more : Nat)
    (text : List Char) :
    Unlimited.readDatum (readingFuel text + more) depth text =
      Unlimited.readDatum (readingFuel text) depth text := by
  refine (suffices_fuel _).datum more ?_
  rw [readingFuel]
  omega

/-- The length of a text bounds how many forms there are in it. -/
theorem unlimited_readForms_enough
    (more further : Nat)
    {fuel : Nat}
    {text : List Char}
    (enough : text.length < fuel) :
    Unlimited.readForms more (fuel + further) text = Unlimited.readForms 0 fuel text := by
  induction fuel generalizing text with
  | zero => omega
  | succ fuel inductionHypothesis =>
      have passed := length_afterGap_le text
      rw [Nat.add_right_comm, Unlimited.readForms, Unlimited.readForms]
      split
      · rfl
      · rw [unlimited_readDatum_enough]
        refine bind_congr_of_outcome ?_
        rintro ⟨form, rest⟩ reads
        have shorter := ((progresses _).datum _ _).length_lt reads
        dsimp only
        rw [inductionHypothesis (by omega)]

/-- The same is true of the reader with the limit. -/
theorem readForms_enough
    (more : Nat)
    {fuel : Nat}
    {text : List Char}
    (enough : text.length < fuel) :
    readForms (fuel + more) text = readForms fuel text := by
  rw [readForms_eq_limited, unlimited_readForms_enough 0 more enough, readForms_eq_limited]

/-- A datum that was read was in front of what is left. -/
theorem length_of_readDatum
    (accepted : readDatum fuel depth text = .ok (datum, rest)) :
    rest.length < text.length :=
  LeavesSuffix.length_lt (accepted ▸ readDatum_leavesSuffix fuel depth text)

/-! The reader with fuel that suffices. -/

/-- One datum at a nesting depth. -/
def datumAt [Regex.Engine]
    (depth : Nat)
    (text : List Char) : Except Failure (Datum × List Char) :=
  readDatum (readingFuel text) depth text

/-- The items of a vector up to its closing parenthesis. -/
def itemsAt [Regex.Engine]
    (depth : Nat)
    (text : List Char) : Except Failure (List Datum × List Char) :=
  readItems (readingFuel text) depth text

/-- What is left of a list up to its closing parenthesis. -/
def tailAt [Regex.Engine]
    (depth : Nat)
    (started : Bool)
    (text : List Char) : Except Failure (Datum × List Char) :=
  readTail (readingFuel text) depth started text

/-- With enough fuel a datum is read as it stands in the text. -/
theorem readDatum_eq_datumAt
    (enough : 3 * text.length + 1 ≤ fuel) :
    readDatum fuel depth text = datumAt depth text := by
  obtain ⟨more, rfl⟩ := Nat.exists_eq_add_of_le enough
  rw [datumAt, readingFuel, (isLimited _).datum, (isLimited _).datum,
    (suffices_fuel _).datum more (Nat.le_refl _), ← (suffices_fuel _).datum 3 (Nat.le_refl _)]

/-- Fuel for a longer text is as good as fuel for this one. -/
theorem readDatum_enough
    (depth : Nat)
    {text longer : List Char}
    (shorter : text.length ≤ longer.length) :
    readDatum (readingFuel longer) depth text = readDatum (readingFuel text) depth text := by
  refine readDatum_eq_datumAt ?_
  rw [readingFuel]
  omega

/-- With enough fuel items are read as they stand in the text. -/
theorem readItems_eq_itemsAt
    (enough : 3 * text.length + 2 ≤ fuel) :
    readItems fuel depth text = itemsAt depth text := by
  obtain ⟨more, rfl⟩ := Nat.exists_eq_add_of_le enough
  rw [itemsAt, readingFuel, (isLimited _).items, (isLimited _).items,
    (suffices_fuel _).items more (Nat.le_refl _), ← (suffices_fuel _).items 2 (Nat.le_refl _)]

/-- With enough fuel the rest of a list is read as it stands in the text. -/
theorem readTail_eq_tailAt
    {started : Bool}
    (enough : 3 * text.length + 3 ≤ fuel) :
    readTail fuel depth started text = tailAt depth started text := by
  obtain ⟨more, rfl⟩ := Nat.exists_eq_add_of_le enough
  rw [tailAt, readingFuel, (isLimited _).tail, (isLimited _).tail,
    (suffices_fuel _).tail more (Nat.le_refl _), ← (suffices_fuel _).tail 1 (Nat.le_refl _)]

/-- Reading moves forward. -/
theorem datumAt_leavesSuffix
    (depth : Nat)
    (text : List Char) :
    LeavesSuffix text (datumAt depth text) :=
  readDatum_leavesSuffix _ depth text

/-- A datum is read by what opens it, in a place that is not too deep. -/
theorem datumAt_eq
    (depth : Nat)
    (text : List Char) :
    datumAt depth text =
      if maxNesting ≤ depth then
        .error ⟨.nesting, text⟩
      else
        match opening (afterGap text) with
        | .mark mark rest => do
            let (inner, last) ← datumAt (depth + 1) rest
            return (.marked mark inner, last)
        | .list rest => tailAt depth false rest
        | .text rest => readTextDatum rest
        | .vector rest => do
            let (items, after) ← itemsAt depth rest
            return (.vector items, after)
        | .bytevector rest => do
            let (items, after) ← itemsAt depth rest
            bytesOf rest items after
        | .regex rest => readRegex rest
        | .character rest => readCharacter rest
        | .constant rest => readConstant ('#' :: rest)
        | .atom start => readAtom start := by
  have passed := length_afterGap_le text
  have opens := length_rest_opening (afterGap text)
  rw [datumAt, readingFuel, readDatum_succ]
  congr 1
  generalize opening (afterGap text) = announced at opens
  cases announced with
  | mark mark rest =>
      simp only [Opening.rest, reduceCtorEq, or_false] at opens
      dsimp only
      rw [readMarked, readDatum_eq_datumAt (by omega)]
  | list rest =>
      simp only [Opening.rest, reduceCtorEq, or_false] at opens
      exact readTail_eq_tailAt (by omega)
  | vector rest =>
      simp only [Opening.rest, reduceCtorEq, or_false] at opens
      dsimp only
      rw [readItems_eq_itemsAt (by omega)]
  | bytevector rest =>
      simp only [Opening.rest, reduceCtorEq, or_false] at opens
      dsimp only
      rw [readItems_eq_itemsAt (by omega)]
  | text rest => rfl
  | regex rest => rfl
  | character rest => rfl
  | constant rest => rfl
  | atom start => rfl

/-- Items are read until a parenthesis closes them. -/
theorem itemsAt_eq
    (depth : Nat)
    (text : List Char) :
    itemsAt depth text =
      match upcoming (afterGap text) with
      | .nothing => .error ⟨.form, []⟩
      | .close rest => .ok ([], rest)
      | .item start => do
          let (item, afterItem) ← datumAt (depth + 1) start
          let (items, rest) ← itemsAt depth afterItem
          return (item :: items, rest) := by
  have passed := length_afterGap_le text
  rw [itemsAt, readingFuel, readItems_succ]
  obtain ⟨_, comes⟩ | ⟨_, _, comes⟩ | ⟨_, _, comes⟩ := upcoming_spec (afterGap text)
  · rw [comes]
  · rw [comes]
  · rw [comes]
    dsimp only
    rw [readDatum_eq_datumAt (by omega)]
    refine (datumAt_leavesSuffix _ _).bind_congr fun item afterItem shorter => ?_
    dsimp only
    rw [readItems_eq_itemsAt (by omega)]

/-- A list is read until a parenthesis closes it or a dot comes. -/
theorem tailAt_eq
    (depth : Nat)
    (started : Bool)
    (text : List Char) :
    tailAt depth started text =
      match upcoming (afterGap text) with
      | .nothing => .error ⟨.form, []⟩
      | .close rest => .ok (.nil, rest)
      | .item start =>
          match afterDot? start with
          | some rest =>
              if started then do
                let (tail, afterTail) ← datumAt (depth + 1) rest
                closeAfter tail afterTail
              else
                .error ⟨.form, start⟩
          | none => do
              let (head, afterHead) ← datumAt (depth + 1) start
              let (tail, rest) ← tailAt depth true afterHead
              return (.pair head tail, rest) := by
  have passed := length_afterGap_le text
  rw [tailAt, readingFuel, readTail_succ]
  obtain ⟨_, comes⟩ | ⟨_, _, comes⟩ | ⟨_, _, comes⟩ := upcoming_spec (afterGap text)
  · rw [comes]
  · rw [comes]
  · rw [comes]
    dsimp only
    cases dotted : afterDot? (afterGap text) with
    | none =>
        dsimp only
        rw [readElement, readDatum_eq_datumAt (by omega)]
        refine (datumAt_leavesSuffix _ _).bind_congr fun head afterHead shorter => ?_
        dsimp only
        rw [readTail_eq_tailAt (by omega)]
    | some afterDot =>
        obtain ⟨shape, _⟩ := afterDot?_eq_some_iff.mp dotted
        rw [shape, List.length_cons] at passed
        dsimp only
        rw [readDatum_eq_datumAt (by omega)]

end SmallScheme.Reader
