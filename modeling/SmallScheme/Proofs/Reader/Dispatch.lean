import SmallScheme.Proofs.Reader.Acceptance

namespace SmallScheme

/-!
# How a datum is told by its first characters

What a written datum starts with decides which part of the reader takes it up.  Here is what the
reader does for each beginning, one step at a time, and that every written datum begins so that it
is taken up at all.
-/

variable {engine : Regex.Engine}

namespace Reader

variable
  {text rest : List Char}
  {depth fuel : Nat}

/-! Blanks before a datum do not matter. -/

/-- A blank is passed over. -/
theorem afterGap_space
    (text : List Char) :
    afterGap (' ' :: text) = afterGap text := by
  unfold afterGap
  rw [skipGap.eq_def]
  rfl

/-- What the reader neither passes over nor takes for a comment stays where it is. -/
theorem afterGap_eq_self
    {first : Char}
    (notLayout : Text.isLayout first = false)
    (notComment : first ≠ ';')
    (notBlock : first = '#' → rest.head? ≠ some '|') :
    afterGap (first :: rest) = first :: rest := by
  unfold afterGap
  rw [skipGap.eq_def]
  simp only [notLayout, notComment, Bool.false_eq_true, ↓reduceIte]
  split_ifs with isHash
  · cases rest with
    | nil =>
        rfl
    | cons next others =>
        have notBar : next ≠ '|' := by simpa using notBlock isHash
        split
        case h_1 same =>
          exact (notBar (List.cons.inj same).1).elim
        case h_2 => rfl
  · rfl

/-- What is neither layout nor the beginning of a comment is not passed over. -/
theorem afterGap_sign
    {first : Char}
    (sign : Text.isLayout first = false ∧ first ≠ ';' ∧ first ≠ '#')
    (rest : List Char) :
    afterGap (first :: rest) = first :: rest :=
  afterGap_eq_self sign.1 sign.2.1 fun isHash => (sign.2.2 isHash).elim

/-- A hash is not passed over, unless a bar makes it a comment. -/
theorem afterGap_hash
    {next : Char}
    (notBar : next ≠ '|')
    (rest : List Char) :
    afterGap ('#' :: next :: rest) = '#' :: next :: rest :=
  afterGap_eq_self rfl (by decide) fun _ => by simpa using notBar

/-- A blank before a datum does not matter. -/
theorem readDatum_space
    (shallow : depth < maxNesting)
    (text : List Char) :
    readDatum (fuel + 1) depth (' ' :: text) = readDatum (fuel + 1) depth text := by
  simp only [readDatum, afterGap_space, Nat.not_le.mpr shallow, ↓reduceIte]

/-- A blank before an item does not matter. -/
theorem readItems_space
    (text : List Char) :
    readItems (fuel + 1) depth (' ' :: text) = readItems (fuel + 1) depth text := by
  simp only [readItems, afterGap_space]

/-- A blank in a list does not matter. -/
theorem readTail_space
    (started : Bool)
    (text : List Char) :
    readTail (fuel + 1) depth started (' ' :: text) = readTail (fuel + 1) depth started text := by
  simp only [readTail, afterGap_space]

/-! What single characters start. -/

section Whole

variable (shallow : depth < maxNesting)

include shallow

/-- A parenthesis opens a list. -/
theorem readDatum_open
    (rest : List Char) :
    readDatum (fuel + 1) depth ('(' :: rest) = readTail fuel depth false rest := by
  rw [readDatum, if_neg (Nat.not_le.mpr shallow), afterGap_sign (by decide)]
  rfl

/-- A sigil marks the datum behind it; a comma with an at sign is another sigil. -/
theorem readDatum_mark
    (mark : Mark)
    (apart : mark = .unquote → rest.head? ≠ some '@') :
    readDatum (fuel + 1) depth (mark.sigil ++ rest) = readMarked fuel depth mark rest := by
  cases mark
  case unquote =>
    have notAt := apart rfl
    change readDatum (fuel + 1) depth (',' :: rest) = _
    rw [readDatum, if_neg (Nat.not_le.mpr shallow), afterGap_sign (by decide)]
    cases rest with
    | nil =>
        rfl
    | cons next others =>
        have notAt : next ≠ '@' := by simpa using notAt
        split <;> simp_all
  all_goals
    simp only [Mark.sigil, List.cons_append, List.nil_append]
    rw [readDatum, if_neg (Nat.not_le.mpr shallow), afterGap_sign (by decide)]
    rfl

/-- A quotation mark opens a text. -/
theorem readDatum_quote
    {characters last : List Char}
    (reads : readText false rest = .ok (characters, last)) :
    readDatum (fuel + 1) depth ('\x22' :: rest) = .ok (.text (String.ofList characters), last) := by
  rw [readDatum, if_neg (Nat.not_le.mpr shallow), afterGap_sign (by decide)]
  change (readText false rest >>= _) = _
  rw [reads]
  rfl

/-- A hash with a parenthesis opens a vector. -/
theorem readDatum_vector
    (rest : List Char) :
    readDatum (fuel + 1) depth ('#' :: '(' :: rest) =
      (do
        let (items, after) ← readItems fuel depth rest
        return (.vector items, after)) := by
  rw [readDatum, if_neg (Nat.not_le.mpr shallow), afterGap_hash (by decide)]
  rfl

/-- The items of a bytevector have to be bytes. -/
theorem readDatum_bytevector
    {items : List Datum}
    {bytes : List UInt8}
    {last : List Char}
    (reads : readItems fuel depth rest = .ok (items, last))
    (denotes : items.mapM byte? = some bytes) :
    readDatum (fuel + 1) depth ('#' :: 'u' :: '8' :: '(' :: rest) =
      .ok (.bytevector bytes, last) := by
  rw [readDatum, if_neg (Nat.not_le.mpr shallow), afterGap_hash (by decide)]
  change (readItems fuel depth rest >>= _) = _
  rw [reads]
  simp only [bind, Except.bind, denotes]
  rfl

/-- A hash with a slash opens a pattern. -/
theorem readDatum_regex
    (rest : List Char) :
    readDatum (fuel + 1) depth ('#' :: '/' :: rest) = readRegex rest := by
  rw [readDatum, if_neg (Nat.not_le.mpr shallow), afterGap_hash (by decide)]
  rfl

/-- A hash with a backslash names a character. -/
theorem readDatum_character
    (rest : List Char) :
    readDatum (fuel + 1) depth ('#' :: '\\' :: rest) = readCharacter rest := by
  rw [readDatum, if_neg (Nat.not_le.mpr shallow), afterGap_hash (by decide)]
  rfl

/-- A hash with a letter is a truth value. -/
theorem readDatum_boolean
    (value : Bool)
    (rest : List Char) :
    readDatum (fuel + 1) depth ('#' :: (if value then 't' else 'f') :: rest) =
      readConstant ('#' :: (if value then 't' else 'f') :: rest) := by
  rw [readDatum, if_neg (Nat.not_le.mpr shallow)]
  cases value <;> rw [afterGap_hash (by decide)] <;> rfl

/-- Every other character that is no delimiter starts a number or a symbol. -/
theorem readDatum_token
    {first : Char}
    (undelimited : isDelimiter first = false)
    (notHash : first ≠ '#') :
    readDatum (fuel + 1) depth (first :: rest) = readAtom (first :: rest) := by
  have notLayout : Text.isLayout first = false := by
    by_contra layout
    rw [Bool.not_eq_false] at layout
    rw [isDelimiter_of_isLayout layout] at undelimited
    cases undelimited
  have notComment : first ≠ ';' := by
    rintro rfl
    cases undelimited
  rw [readDatum, if_neg (Nat.not_le.mpr shallow),
    afterGap_eq_self notLayout notComment fun isHash => (notHash isHash).elim]
  split
  case h_12 => rfl
  case h_1 same | h_2 same | h_3 same | h_4 same | h_5 same | h_6 same | h_7 same | h_8 same |
      h_9 same | h_10 same | h_11 same =>
    obtain ⟨rfl, _⟩ := List.cons.inj same
    first
      | exact (notHash rfl).elim
      | cases undelimited

end Whole

/-! What stands in a list or in a vector. -/

/-- The text goes on with a datum, not with the end of a list nor with a dot before its tail. -/
structure Starts (text : List Char) : Prop where
  settled : afterGap text = text
  nonempty : text ≠ []
  notClose : text.head? ≠ some ')'
  notDot : ∀ rest, text = '.' :: rest → endsToken rest = false

/-- A parenthesis ends the items. -/
theorem readItems_close
    (rest : List Char) :
    readItems (fuel + 1) depth (')' :: rest) = .ok ([], rest) := by
  rw [readItems, afterGap_sign (by decide)]
  rfl

/-- A parenthesis ends a list properly. -/
theorem readTail_close
    (started : Bool)
    (rest : List Char) :
    readTail (fuel + 1) depth started (')' :: rest) = .ok (.nil, rest) := by
  rw [readTail, afterGap_sign (by decide)]
  rfl

/-- Where no parenthesis stands, an item is read, and the others behind it. -/
theorem Starts.readItems_eq_ok_iff
    (starts : Starts text)
    {data : List Datum} :
    readItems (fuel + 1) depth text = .ok (data, rest) ↔
      ∃ item afterItem items,
        readDatum fuel (depth + 1) text = .ok (item, afterItem) ∧
          readItems fuel depth afterItem = .ok (items, rest) ∧ data = item :: items := by
  rw [readItems, starts.settled]
  split
  · exact (starts.nonempty rfl).elim
  · exact (starts.notClose rfl).elim
  · simp only [bind_eq_ok_iff, Prod.exists]
    constructor
    · rintro ⟨item, afterItem, readsItem, items, after, readsItems, same⟩
      cases same
      exact ⟨item, afterItem, items, readsItem, readsItems, rfl⟩
    · rintro ⟨item, afterItem, items, readsItem, readsItems, rfl⟩
      exact ⟨item, afterItem, readsItem, items, rest, readsItems, rfl⟩

/-- Where neither dot nor parenthesis stands, a list goes on with a pair. -/
theorem Starts.readTail_eq_ok_iff
    (starts : Starts text)
    {started : Bool}
    {list : Datum} :
    readTail (fuel + 2) depth started text = .ok (list, rest) ↔
      ∃ head afterHead tail,
        readDatum fuel (depth + 1) text = .ok (head, afterHead) ∧
          readTail fuel depth true afterHead = .ok (tail, rest) ∧ list = .pair head tail := by
  have steps : readTail (fuel + 2) depth started text = readElement (fuel + 1) depth text := by
    rw [readTail, starts.settled]
    split
    case h_1 => exact (starts.nonempty rfl).elim
    case h_2 => exact (starts.notClose rfl).elim
    case h_3 rest =>
      rw [starts.notDot rest rfl]
      rfl
    case h_4 => rfl
  rw [steps, readElement]
  simp only [bind_eq_ok_iff, Prod.exists]
  constructor
  · rintro ⟨head, afterHead, readsHead, tail, after, readsTail, same⟩
    cases same
    exact ⟨head, afterHead, tail, readsHead, readsTail, rfl⟩
  · rintro ⟨head, afterHead, tail, readsHead, readsTail, rfl⟩
    exact ⟨head, afterHead, readsHead, tail, rest, readsTail, rfl⟩

/-- After a dot comes the tail of the list and its closing parenthesis. -/
theorem readTail_dot_eq_ok_iff
    {list : Datum} :
    readTail (fuel + 1) depth true ('.' :: ' ' :: text) = .ok (list, rest) ↔
      ∃ afterTail,
        readDatum fuel (depth + 1) (' ' :: text) = .ok (list, afterTail) ∧
          afterGap afterTail = ')' :: rest := by
  have ends : endsToken (' ' :: text) = true := by
    change isDelimiter ' ' = true
    decide
  rw [readTail, afterGap_sign (by decide)]
  simp only [ends, ↓reduceIte, bind_eq_ok_iff, Prod.exists]
  constructor
  · rintro ⟨tail, afterTail, reads, closes⟩
    split at closes
    · cases closes
      exact ⟨afterTail, reads, by assumption⟩
    · cases closes
  · rintro ⟨afterTail, reads, closes⟩
    exact ⟨list, afterTail, reads, by rw [closes]; rfl⟩

end Reader

end SmallScheme
