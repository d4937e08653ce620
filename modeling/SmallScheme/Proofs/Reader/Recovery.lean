import SmallScheme.Proofs.Reader.Dispatch

namespace SmallScheme

/-!
# Reading what was written

A datum reads back when the reader, given its written form and enough fuel, gives the datum and
leaves the text after it; it is lost when the reader gives another datum or none.  Both are shown
construct by construct, by itself and as the tail of a list, and then for every readable datum
without reals: it reads back if its written form is unambiguous throughout, and it is lost
otherwise.
-/

variable {engine : Regex.Engine}

namespace Datum

open Reader

variable
  {datum head tail inner : Datum}
  {items : List Datum}

/-! ## The written form as text -/

/-- Items are written one by one. -/
theorem renderAll_eq_map
    (items : List Datum) :
    renderAll items = items.map (render .whole) := by
  induction items with
  | nil =>
      rfl
  | cons item rest inductionHypothesis =>
      rw [renderAll, inductionHypothesis, List.map_cons]

/-- In the tail of a pair only pairs and the empty list do without a dot. -/
def IsList : Datum → Prop
  | .nil => True
  | .pair _ _ => True
  | _ => False

/-- Behind a dot stands what a list ends in, if it is no list. -/
theorem render_tail_of_not_isList
    (notList : ¬datum.IsList) :
    render .tail datum = ' ' :: '.' :: ' ' :: (render .whole datum ++ [')']) := by
  cases datum <;> first | rfl | exact (notList trivial).elim

/-- What stands behind a dot is one level further in. -/
theorem nesting_tail_of_not_isList
    (notList : ¬datum.IsList) :
    datum.nesting .tail = datum.nesting .whole + 1 := by
  cases datum <;> first | rfl | exact (notList trivial).elim

/-- Whatever is written as the tail of a pair ends the token before it. -/
theorem endsToken_render_tail
    (datum : Datum)
    (rest : List Char) :
    endsToken (render .tail datum ++ rest) = true := by
  cases datum <;> rfl

end Datum

namespace Reader

/-- A character of its own begins what is no gap. -/
theorem Starts.of_sign
    {first : Char}
    (sign :
      Text.isLayout first = false ∧ first ≠ ';' ∧ first ≠ '#' ∧ first ≠ ')' ∧ first ≠ '.')
    (rest : List Char) :
    Starts (first :: rest) where
  settled := afterGap_sign ⟨sign.1, sign.2.1, sign.2.2.1⟩ rest
  nonempty := List.cons_ne_nil _ _
  notClose := by simpa using sign.2.2.2.1
  notDot := fun _ same => (sign.2.2.2.2 (List.cons.inj same).1).elim

/-- A hash begins what is no gap, if no bar follows. -/
theorem Starts.of_hash
    {next : Char}
    (notBar : next ≠ '|')
    (rest : List Char) :
    Starts ('#' :: next :: rest) where
  settled := afterGap_hash notBar rest
  nonempty := List.cons_ne_nil _ _
  notClose := by simp
  notDot := fun _ same => nomatch (List.cons.inj same).1

/-- A token that is no lone dot starts a datum. -/
theorem Starts.of_token
    {token : List Char}
    (nonempty : token ≠ [])
    (undelimited : ∀ character ∈ token, isDelimiter character = false)
    (notDot : token ≠ ['.'])
    (notHash : token.head? ≠ some '#')
    (rest : List Char) :
    Starts (token ++ rest) := by
  obtain ⟨first, others, rfl⟩ := List.exists_cons_of_ne_nil nonempty
  have plain : isDelimiter first = false := undelimited first List.mem_cons_self
  have apart : ∀ sign : Char, isDelimiter sign = true → first ≠ sign := by
    rintro sign delimits rfl
    rw [plain] at delimits
    cases delimits
  have notLayout : Text.isLayout first = false := by
    by_contra layout
    rw [Bool.not_eq_false] at layout
    exact apart first (isDelimiter_of_isLayout layout) rfl
  have notHash : first ≠ '#' := by simpa using notHash
  refine
    { settled := afterGap_sign ⟨notLayout, apart ';' (by decide), notHash⟩ _
      nonempty := List.cons_ne_nil _ _
      notClose := by simpa using apart ')' (by decide)
      notDot := ?_ }
  intro after same
  obtain ⟨isDot, rfl⟩ := List.cons.inj same
  obtain ⟨next, further, rfl⟩ :=
    List.exists_cons_of_ne_nil fun alone : others = [] => notDot (by rw [isDot, alone])
  exact undelimited next (by simp)

end Reader

namespace Datum

open Reader

variable
  {datum head tail inner : Datum}
  {items : List Datum}

/-- Written data begin with something that is no gap. -/
theorem starts_render
    (restorable : datum.IsReadable)
    (notReal : ¬datum.IsReal)
    (rest : List Char) :
    Starts (render .whole datum ++ rest) := by
  cases datum with
  | nil => exact .of_sign (by decide) _
  | pair head tail => exact .of_sign (by decide) _
  | integer value =>
      have undelimited :
          ∀ character ∈ integerChars value.toInt, isDelimiter character = false :=
        fun _ => not_isDelimiter_of_mem_integerChars
      obtain ⟨first, others, isDigit, _, ⟨_, shape⟩ | ⟨_, shape⟩⟩ :=
        integerChars_cases value.toInt
      · change Starts (integerChars value.toInt ++ rest)
        rw [shape] at undelimited ⊢
        exact .of_token (by simp) undelimited (by simp) (by simp) rest
      · have apart : first ≠ '.' ∧ first ≠ '#' := by
          constructor <;> rintro rfl <;> cases isDigit
        change Starts (integerChars value.toInt ++ rest)
        rw [shape] at undelimited ⊢
        exact .of_token (by simp) undelimited (by simp [apart]) (by simp [apart]) rest
  | boolean value => cases value <;> exact .of_hash (by decide) _
  | character value => exact .of_hash (by decide) _
  | text value => exact .of_sign (by decide) _
  | symbol name =>
      have isName : IsName name.toList := restorable
      exact .of_token isName.nonempty isName.undelimited isName.notDot isName.notHash rest
  | vector items => exact .of_hash (by decide) _
  | bytevector bytes => exact .of_hash (by decide) _
  | marked mark inner => cases mark <;> exact .of_sign (by decide) _
  | regex pattern => exact .of_hash (by decide) _
  | real value => exact (notReal trivial).elim
  | unspecified => exact restorable.elim
  | program forms => exact restorable.elim
  | circular items => exact restorable.elim
  | handle kind shown => exact restorable.elim

/-- Only a symbol is written with an at sign at its start. -/
theorem head?_render_ne_at
    (readable : datum.IsReadable)
    (notReal : ¬datum.IsReal)
    (notAt : ∀ name, datum = .symbol name → name.toList.head? ≠ some '@')
    (rest : List Char) :
    (render .whole datum ++ rest).head? ≠ some '@' := by
  cases datum with
  | symbol name =>
      have isName : IsName name.toList := readable
      obtain ⟨first, others, shape⟩ := List.exists_cons_of_ne_nil isName.nonempty
      have apart := notAt name rfl
      change (name.toList ++ rest).head? ≠ _
      rw [shape] at apart ⊢
      simpa using apart
  | integer value =>
      change (integerChars value.toInt ++ rest).head? ≠ _
      obtain ⟨first, others, isDigit, _, ⟨_, shape⟩ | ⟨_, shape⟩⟩ :=
        integerChars_cases value.toInt
      · simp [shape]
      · have apart : first ≠ '@' := by
          rintro rfl
          cases isDigit
        simpa [shape] using apart
  | marked mark inner => cases mark <;> simp [render, Place.wrap, Mark.sigil]
  | real value => exact (notReal trivial).elim
  | unspecified => exact readable.elim
  | program forms => exact readable.elim
  | circular items => exact readable.elim
  | handle kind shown => exact readable.elim
  | nil => simp [render]
  | pair head tail => simp [render]
  | boolean value => simp [render, Place.wrap]
  | character value => simp [render, Place.wrap, characterChars]
  | text value => simp [render, Place.wrap, textChars]
  | vector items => simp [render, Place.wrap]
  | bytevector bytes => simp [render, Place.wrap]
  | regex pattern => simp [render, Place.wrap]

/-! ## Reading back -/

/--
The reader gives back the datum and leaves the text after it.  Three steps for each character are
fuel enough.
-/
structure ReadsBack [Regex.Engine] (datum : Datum) : Prop where
  whole :
    ∀ {fuel depth rest},
      endsToken rest = true →
      3 * (render .whole datum ++ rest).length < fuel →
      depth + datum.nesting .whole < maxNesting →
      readDatum fuel depth (render .whole datum ++ rest) = .ok (datum, rest)
  tail :
    ∀ {fuel depth rest},
      3 * (render .tail datum ++ rest).length + 2 < fuel →
      depth + datum.nesting .tail < maxNesting →
      readTail fuel depth true (render .tail datum ++ rest) = .ok (datum, rest)

/-- The reader gives another datum or none. -/
structure Lost [Regex.Engine] (datum : Datum) : Prop where
  whole :
    ∀ {fuel depth rest last},
      endsToken rest = true →
      3 * (render .whole datum ++ rest).length < fuel →
      depth + datum.nesting .whole < maxNesting →
      readDatum fuel depth (render .whole datum ++ rest) ≠ .ok (datum, last)
  tail :
    ∀ {fuel depth rest last},
      3 * (render .tail datum ++ rest).length + 2 < fuel →
      depth + datum.nesting .tail < maxNesting →
      readTail fuel depth true (render .tail datum ++ rest) ≠ .ok (datum, last)

/-- What is no list stands after a dot in the tail of a pair. -/
theorem ReadsBack.of_whole
    (notList : ¬datum.IsList)
    (whole :
      ∀ {fuel depth rest},
        endsToken rest = true →
        3 * (render .whole datum ++ rest).length < fuel →
        depth + datum.nesting .whole < maxNesting →
        readDatum fuel depth (render .whole datum ++ rest) = .ok (datum, rest)) :
    datum.ReadsBack := by
  refine ⟨whole, fun {fuel depth rest} enough shallow => ?_⟩
  rw [render_tail_of_not_isList notList] at enough ⊢
  rw [nesting_tail_of_not_isList notList] at shallow
  simp only [List.cons_append, List.append_assoc, List.nil_append, List.length_cons,
    List.length_append] at enough
  obtain ⟨fuel, rfl⟩ : ∃ further, fuel = further + 2 := ⟨fuel - 2, by omega⟩
  simp only [List.cons_append, List.append_assoc, List.nil_append]
  rw [readTail_space, readTail_dot_eq_ok_iff, readDatum_space (by omega)]
  refine ⟨')' :: rest, whole rfl ?_ (by omega), afterGap_sign (by decide) rest⟩
  simp only [List.length_append, List.length_cons]
  omega

/-- What is not read back as a whole is not read back as the rest of a list either. -/
theorem Lost.of_whole
    (notList : ¬datum.IsList)
    (whole :
      ∀ {fuel depth rest last},
        endsToken rest = true →
        3 * (render .whole datum ++ rest).length < fuel →
        depth + datum.nesting .whole < maxNesting →
        readDatum fuel depth (render .whole datum ++ rest) ≠ .ok (datum, last)) :
    datum.Lost := by
  refine ⟨whole, fun {fuel depth rest last} enough shallow => ?_⟩
  rw [render_tail_of_not_isList notList] at enough ⊢
  rw [nesting_tail_of_not_isList notList] at shallow
  simp only [List.cons_append, List.append_assoc, List.nil_append, List.length_cons,
    List.length_append] at enough
  obtain ⟨fuel, rfl⟩ : ∃ further, fuel = further + 2 := ⟨fuel - 2, by omega⟩
  simp only [List.cons_append, List.append_assoc, List.nil_append]
  rw [readTail_space, ne_eq, readTail_dot_eq_ok_iff, readDatum_space (by omega)]
  rintro ⟨afterTail, reads, _⟩
  refine whole rfl ?_ (by omega) reads
  simp only [List.length_append, List.length_cons]
  omega

/-! ### Lists -/

/-- The empty list is read back in every place. -/
theorem ReadsBack.nil :
    Datum.nil.ReadsBack := by
  constructor
  · intro fuel depth rest _ enough shallow
    simp only [render, List.cons_append, List.nil_append, List.length_cons] at enough ⊢
    obtain ⟨fuel, rfl⟩ : ∃ further, fuel = further + 2 := ⟨fuel - 2, by omega⟩
    rw [readDatum_open (Nat.lt_of_le_of_lt (Nat.le_add_right _ _) shallow), readTail_close]
  · intro fuel depth rest enough _
    obtain ⟨fuel, rfl⟩ : ∃ further, fuel = further + 1 := ⟨fuel - 1, by omega⟩
    exact readTail_close true rest

section Pair

variable
  {fuel depth : Nat}
  {rest last : List Char}
  {list : Datum}

/-- Behind its parenthesis a written list is read as the rest of a list. -/
theorem readDatum_pair
    (shallow : depth < maxNesting) :
    readDatum (fuel + 1) depth (render .whole (.pair head tail) ++ rest) =
      readTail fuel depth false (render .whole head ++ render .tail tail ++ rest) :=
  readDatum_open shallow _

/-- The blank before an item is passed over. -/
theorem readTail_pair :
    readTail (fuel + 1) depth true (render .tail (.pair head tail) ++ rest) =
      readTail (fuel + 1) depth true (render .whole head ++ render .tail tail ++ rest) :=
  readTail_space true _

/-- A pair is read as its head and what is left of the list. -/
theorem readTail_pair_eq_ok_iff
    {started : Bool}
    (starts : ∀ rest, Starts (render .whole head ++ rest)) :
    readTail (fuel + 2) depth started (render .whole head ++ render .tail tail ++ rest) =
        .ok (list, last) ↔
      ∃ first afterFirst others,
        readDatum fuel (depth + 1) (render .whole head ++ (render .tail tail ++ rest)) =
            .ok (first, afterFirst) ∧
          readTail fuel depth true afterFirst = .ok (others, last) ∧ list = .pair first others := by
  rw [List.append_assoc]
  exact (starts _).readTail_eq_ok_iff

variable (starts : ∀ rest, Starts (render .whole head ++ rest))

include starts

/-- Reading a pair comes down to reading its parts, whichever sign stands before them. -/
theorem ReadsBack.pair
    (readsHead : head.ReadsBack)
    (readsTail : tail.ReadsBack) :
    (Datum.pair head tail).ReadsBack := by
  have nonempty := List.length_pos_iff.mpr (starts []).nonempty
  have reads
      {fuel depth : Nat}
      {started : Bool}
      {rest : List Char}
      (enough : 3 * (render .whole head ++ render .tail tail ++ rest).length < fuel)
      (shallow : depth + (Datum.pair head tail).nesting .whole < maxNesting) :
      readTail (fuel + 2) depth started (render .whole head ++ render .tail tail ++ rest) =
        .ok (.pair head tail, rest) := by
    rw [nesting] at shallow
    simp only [List.length_append, List.length_nil] at enough nonempty
    rw [readTail_pair_eq_ok_iff starts]
    refine ⟨head, _, tail, readsHead.whole (endsToken_render_tail tail rest) ?_ (by omega),
      readsTail.tail ?_ (by omega), rfl⟩
    all_goals
      simp only [List.length_append]
      omega
  constructor
  · intro fuel depth rest _ enough shallow
    have shorter : (render .whole (.pair head tail) ++ rest).length =
        (render .whole head ++ render .tail tail ++ rest).length + 1 := rfl
    obtain ⟨fuel, rfl⟩ : ∃ further, fuel = further + 3 := ⟨fuel - 3, by omega⟩
    rw [readDatum_pair (by omega)]
    exact reads (by omega) shallow
  · intro fuel depth rest enough shallow
    have shorter : (render .tail (.pair head tail) ++ rest).length =
        (render .whole head ++ render .tail tail ++ rest).length + 1 := rfl
    obtain ⟨fuel, rfl⟩ : ∃ further, fuel = further + 2 := ⟨fuel - 2, by omega⟩
    rw [readTail_pair]
    exact reads (by omega) shallow

/-- A pair is lost with its head, and with its tail once the head has been read. -/
theorem Lost.pair
    (lost : head.Lost ∨ head.ReadsBack ∧ tail.Lost) :
    (Datum.pair head tail).Lost := by
  have nonempty := List.length_pos_iff.mpr (starts []).nonempty
  have misses
      {fuel depth : Nat}
      {started : Bool}
      {rest last : List Char}
      (enough : 3 * (render .whole head ++ render .tail tail ++ rest).length < fuel)
      (shallow : depth + (Datum.pair head tail).nesting .whole < maxNesting) :
      readTail (fuel + 2) depth started (render .whole head ++ render .tail tail ++ rest) ≠
        .ok (.pair head tail, last) := by
    rw [nesting] at shallow
    simp only [List.length_append, List.length_nil] at enough nonempty
    rw [ne_eq, readTail_pair_eq_ok_iff starts]
    rintro ⟨first, afterFirst, others, readsFirst, readsOthers, same⟩
    cases same
    have ends := endsToken_render_tail tail rest
    have enoughHead :
        3 * (render .whole head ++ (render .tail tail ++ rest)).length < fuel := by
      simp only [List.length_append]
      omega
    rcases lost with lostHead | ⟨readsHead, lostTail⟩
    · exact lostHead.whole ends enoughHead (by omega) readsFirst
    · rw [readsHead.whole ends enoughHead (by omega)] at readsFirst
      cases readsFirst
      refine lostTail.tail ?_ (by omega) readsOthers
      simp only [List.length_append]
      omega
  constructor
  · intro fuel depth rest last _ enough shallow
    have shorter : (render .whole (.pair head tail) ++ rest).length =
        (render .whole head ++ render .tail tail ++ rest).length + 1 := rfl
    obtain ⟨fuel, rfl⟩ : ∃ further, fuel = further + 3 := ⟨fuel - 3, by omega⟩
    rw [readDatum_pair (by omega)]
    exact misses (by omega) shallow
  · intro fuel depth rest last enough shallow
    have shorter : (render .tail (.pair head tail) ++ rest).length =
        (render .whole head ++ render .tail tail ++ rest).length + 1 := rfl
    obtain ⟨fuel, rfl⟩ : ∃ further, fuel = further + 2 := ⟨fuel - 2, by omega⟩
    rw [readTail_pair]
    exact misses (by omega) shallow

end Pair

/-! ### Abbreviations -/

section Marked

variable
  {mark : Mark}
  (apart : mark = .unquote → ∀ rest, (render .whole inner ++ rest).head? ≠ some '@')

include apart

/-- An abbreviated datum is read as its mark and the datum under it. -/
theorem readDatum_marked_eq_ok_iff
    {fuel depth : Nat}
    {rest last : List Char}
    {datum : Datum}
    (shallow : depth < maxNesting) :
    readDatum (fuel + 2) depth (render .whole (.marked mark inner) ++ rest) = .ok (datum, last) ↔
      ∃ found,
        readDatum fuel (depth + 1) (render .whole inner ++ rest) = .ok (found, last) ∧
          datum = .marked mark found := by
  have shape : render .whole (.marked mark inner) ++ rest =
      mark.sigil ++ (render .whole inner ++ rest) :=
    List.append_assoc _ _ _
  rw [shape, readDatum_mark shallow mark fun isUnquote => apart isUnquote rest, readMarked]
  simp only [bind_eq_ok_iff, Prod.exists]
  constructor
  · rintro ⟨found, after, reads, same⟩
    cases same
    exact ⟨found, reads, rfl⟩
  · rintro ⟨found, reads, rfl⟩
    exact ⟨found, last, reads, rfl⟩

omit apart in
/-- What is marked is written shorter than with the mark. -/
theorem length_render_marked
    (mark : Mark)
    (inner : Datum)
    (rest : List Char) :
    (render .whole inner ++ rest).length <
      (render .whole (.marked mark inner) ++ rest).length := by
  have signed : 0 < mark.sigil.length := by cases mark <;> decide
  simp only [render, Place.wrap, List.length_append]
  omega

/-- A marked datum is read back if what it marks is. -/
theorem ReadsBack.marked
    (readsInner : inner.ReadsBack) :
    (Datum.marked mark inner).ReadsBack := by
  refine .of_whole nofun fun {fuel depth rest} ends enough shallow => ?_
  have shorter := length_render_marked mark inner rest
  rw [nesting, Place.deepen] at shallow
  obtain ⟨fuel, rfl⟩ : ∃ further, fuel = further + 2 := ⟨fuel - 2, by omega⟩
  rw [readDatum_marked_eq_ok_iff apart (by omega)]
  exact ⟨inner, readsInner.whole ends (by omega) (by omega), rfl⟩

/-- A marked datum is lost with what it marks. -/
theorem Lost.marked
    (lostInner : inner.Lost) :
    (Datum.marked mark inner).Lost := by
  refine .of_whole nofun fun {fuel depth rest last} ends enough shallow => ?_
  have shorter := length_render_marked mark inner rest
  rw [nesting, Place.deepen] at shallow
  obtain ⟨fuel, rfl⟩ : ∃ further, fuel = further + 2 := ⟨fuel - 2, by omega⟩
  rw [ne_eq, readDatum_marked_eq_ok_iff apart (by omega)]
  rintro ⟨found, reads, same⟩
  cases same
  exact lostInner.whole ends (by omega) (by omega) reads

end Marked

/-- An at sign after the comma of an unquote makes it the other mark. -/
theorem Lost.unquote
    {name : String}
    (isAt : name.toList.head? = some '@') :
    (Datum.marked .unquote (.symbol name)).Lost := by
  refine .of_whole nofun fun {fuel depth rest last} _ enough shallow reads => ?_
  obtain ⟨others, shape⟩ := List.head?_eq_some_iff.mp isAt
  have written : render .whole (.marked .unquote (.symbol name)) ++ rest =
      Mark.unquoteSplicing.sigil ++ (others ++ rest) := by
    change ',' :: (name.toList ++ rest) = _
    rw [shape]
    rfl
  rw [written] at reads enough
  obtain ⟨fuel, rfl⟩ : ∃ further, fuel = further + 2 := by
    simp only [Mark.sigil, List.cons_append, List.length_cons] at enough
    exact ⟨fuel - 2, by omega⟩
  have within : depth < maxNesting := Nat.lt_of_le_of_lt (Nat.le_add_right _ _) shallow
  have apart : Mark.unquoteSplicing ≠ .unquote := by rintro ⟨⟩
  rw [readDatum_mark within .unquoteSplicing fun same => (apart same).elim, readMarked] at reads
  obtain ⟨⟨found, after⟩, _, same⟩ := bind_eq_ok_iff.mp reads
  cases same

/-! ### Vectors -/

/-- What comes after an item of a vector: the closing parenthesis or a blank and the other items. -/
def followedBy (others : List Datum) (rest : List Char) : List Char :=
  match others with
  | [] => ')' :: rest
  | _ => ' ' :: (spaced (renderAll others) ++ ')' :: rest)

/-- Items are written with one blank between them. -/
theorem spaced_renderAll_cons
    (item : Datum)
    (others : List Datum)
    (rest : List Char) :
    spaced (renderAll (item :: others)) ++ ')' :: rest =
      render .whole item ++ followedBy others rest := by
  cases others with
  | nil => rfl
  | cons next further => exact List.append_assoc _ _ _

/-- A written item is followed by a blank or a parenthesis. -/
theorem endsToken_followedBy
    (others : List Datum)
    (rest : List Char) :
    endsToken (followedBy others rest) = true := by
  cases others <;> rfl

/-- The blank before the next item is all that is passed over. -/
theorem length_le_followedBy
    (others : List Datum)
    (rest : List Char) :
    (spaced (renderAll others) ++ ')' :: rest).length ≤ (followedBy others rest).length := by
  cases others with
  | nil => exact Nat.le_refl _
  | cons next further => exact Nat.le_succ _

/-- The items behind an item are read without the blank. -/
theorem readItems_followedBy
    {fuel depth : Nat}
    (others : List Datum)
    (rest : List Char) :
    readItems (fuel + 1) depth (followedBy others rest) =
      readItems (fuel + 1) depth (spaced (renderAll others) ++ ')' :: rest) := by
  cases others with
  | nil => rfl
  | cons next further => exact readItems_space _

/-- The items of a vector are given back one after the other. -/
theorem readItems_written
    (starts : ∀ item ∈ items, ∀ rest, Starts (render .whole item ++ rest))
    (readsBack : ∀ item ∈ items, item.ReadsBack)
    {fuel depth : Nat}
    {rest : List Char}
    (enough : 3 * (spaced (renderAll items) ++ ')' :: rest).length + 1 < fuel)
    (shallow : depth + nestingIn items < maxNesting) :
    readItems fuel depth (spaced (renderAll items) ++ ')' :: rest) = .ok (items, rest) := by
  induction items generalizing fuel with
  | nil =>
      obtain ⟨fuel, rfl⟩ : ∃ further, fuel = further + 1 := ⟨fuel - 1, by omega⟩
      exact readItems_close rest
  | cons item others inductionHypothesis =>
      have startsItem := starts item List.mem_cons_self
      have nonempty := List.length_pos_iff.mpr (startsItem []).nonempty
      have shorter := length_le_followedBy others rest
      rw [nestingIn] at shallow
      rw [spaced_renderAll_cons] at enough ⊢
      simp only [List.length_append, List.length_nil] at enough nonempty shorter
      obtain ⟨fuel, rfl⟩ : ∃ further, fuel = further + 2 := ⟨fuel - 2, by omega⟩
      rw [(startsItem _).readItems_eq_ok_iff]
      refine ⟨item, followedBy others rest, others, ?_, ?_, rfl⟩
      · refine (readsBack item List.mem_cons_self).whole (endsToken_followedBy _ _) ?_ (by omega)
        simp only [List.length_append]
        omega
      · rw [readItems_followedBy]
        refine inductionHypothesis
          (fun other member => starts other (List.mem_cons_of_mem _ member))
          (fun other member => readsBack other (List.mem_cons_of_mem _ member)) ?_ (by omega)
        simp only [List.length_append]
        omega

/-- A vector is lost with the first of its items that is lost. -/
theorem readItems_lost
    (starts : ∀ item ∈ items, ∀ rest, Starts (render .whole item ++ rest))
    (readsBackOrLost : ∀ item ∈ items, item.ReadsBack ∨ item.Lost)
    (lost : ∃ item ∈ items, item.Lost)
    {fuel depth : Nat}
    {rest last : List Char}
    (enough : 3 * (spaced (renderAll items) ++ ')' :: rest).length + 1 < fuel)
    (shallow : depth + nestingIn items < maxNesting) :
    readItems fuel depth (spaced (renderAll items) ++ ')' :: rest) ≠ .ok (items, last) := by
  induction items generalizing fuel with
  | nil =>
      obtain ⟨_, member, _⟩ := lost
      cases member
  | cons item others inductionHypothesis =>
      have startsItem := starts item List.mem_cons_self
      have nonempty := List.length_pos_iff.mpr (startsItem []).nonempty
      have shorter := length_le_followedBy others rest
      rw [nestingIn] at shallow
      rw [spaced_renderAll_cons] at enough ⊢
      simp only [List.length_append, List.length_nil] at enough nonempty shorter
      obtain ⟨fuel, rfl⟩ : ∃ further, fuel = further + 2 := ⟨fuel - 2, by omega⟩
      rw [ne_eq, (startsItem _).readItems_eq_ok_iff]
      rintro ⟨first, afterFirst, data, readsFirst, readsData, same⟩
      cases same
      have ends := endsToken_followedBy others rest
      have enoughItem : 3 * (render .whole item ++ followedBy others rest).length < fuel + 1 := by
        simp only [List.length_append]
        omega
      rcases readsBackOrLost item List.mem_cons_self with readsItem | lostItem
      · rw [readsItem.whole ends enoughItem (by omega)] at readsFirst
        cases readsFirst
        rw [readItems_followedBy] at readsData
        obtain ⟨lostOne, member, isLost⟩ := lost
        rcases List.mem_cons.mp member with rfl | inOthers
        · have within : depth + 1 + lostOne.nesting .whole < maxNesting := by omega
          exact isLost.whole ends enoughItem within (readsItem.whole ends enoughItem within)
        · refine inductionHypothesis
            (fun other member => starts other (List.mem_cons_of_mem _ member))
            (fun other member => readsBackOrLost other (List.mem_cons_of_mem _ member))
            ⟨lostOne, inOthers, isLost⟩ ?_ (by omega) readsData
          simp only [List.length_append]
          omega
      · exact lostItem.whole ends enoughItem (by omega) readsFirst

section Vector

variable (starts : ∀ item ∈ items, ∀ rest, Starts (render .whole item ++ rest))

include starts

/-- A vector is read back if all its items are. -/
theorem ReadsBack.vector
    (readsBack : ∀ item ∈ items, item.ReadsBack) :
    (Datum.vector items).ReadsBack := by
  refine .of_whole nofun fun {fuel depth rest} _ enough shallow => ?_
  have shape : render .whole (.vector items) ++ rest =
      '#' :: '(' :: (spaced (renderAll items) ++ ')' :: rest) := by
    simp [render, Place.wrap]
  rw [shape] at enough ⊢
  simp only [List.length_cons] at enough
  rw [nesting, Place.deepen] at shallow
  obtain ⟨fuel, rfl⟩ : ∃ further, fuel = further + 1 := ⟨fuel - 1, by omega⟩
  rw [readDatum_vector (by omega), bind_eq_ok_iff]
  exact ⟨(items, rest), readItems_written starts readsBack (by omega) shallow, rfl⟩

/-- A vector is lost with one of its items. -/
theorem Lost.vector
    (readsBackOrLost : ∀ item ∈ items, item.ReadsBack ∨ item.Lost)
    (lost : ∃ item ∈ items, item.Lost) :
    (Datum.vector items).Lost := by
  refine .of_whole nofun fun {fuel depth rest last} _ enough shallow => ?_
  have shape : render .whole (.vector items) ++ rest =
      '#' :: '(' :: (spaced (renderAll items) ++ ')' :: rest) := by
    simp [render, Place.wrap]
  rw [shape] at enough ⊢
  simp only [List.length_cons] at enough
  rw [nesting, Place.deepen] at shallow
  obtain ⟨fuel, rfl⟩ : ∃ further, fuel = further + 1 := ⟨fuel - 1, by omega⟩
  rw [ne_eq, readDatum_vector (by omega), bind_eq_ok_iff]
  rintro ⟨⟨found, after⟩, reads, same⟩
  cases same
  exact readItems_lost starts readsBackOrLost lost (by omega) shallow reads

end Vector

end Datum

end SmallScheme
