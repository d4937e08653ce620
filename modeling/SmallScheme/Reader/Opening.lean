import SmallScheme.Reader.Basic

namespace SmallScheme.Reader

/-!
# What a text opens with

The first characters of a text decide which part of the reader takes it up, and where.
-/

/-- What the first characters of a text announce, with the text this part of it is read from. -/
inductive Opening
  | mark (mark : Mark) (rest : List Char)
  | list (rest : List Char)
  | text (rest : List Char)
  | vector (rest : List Char)
  | bytevector (rest : List Char)
  | regex (rest : List Char)
  | character (rest : List Char)
  /-- Only the hash sign has been looked at. -/
  | constant (rest : List Char)
  | atom (text : List Char)

/-- What a text opens with, after blanks and comments. -/
def opening : List Char → Opening
  | '\x27' :: rest => .mark .quote rest
  | '\x60' :: rest => .mark .quasiquote rest
  | ',' :: '@' :: rest => .mark .unquoteSplicing rest
  | ',' :: rest => .mark .unquote rest
  | '(' :: rest => .list rest
  | '\x22' :: rest => .text rest
  | '#' :: '(' :: rest => .vector rest
  | '#' :: 'u' :: '8' :: '(' :: rest => .bytevector rest
  | '#' :: '/' :: rest => .regex rest
  | '#' :: '\\' :: rest => .character rest
  | '#' :: rest => .constant rest
  | start => .atom start

/-- The text that the announced part is read from. -/
def Opening.rest : Opening → List Char
  | .mark _ rest => rest
  | .list rest => rest
  | .text rest => rest
  | .vector rest => rest
  | .bytevector rest => rest
  | .regex rest => rest
  | .character rest => rest
  | .constant rest => rest
  | .atom start => start

theorem length_rest_opening
    (start : List Char) :
    (opening start).rest.length < start.length ∨ opening start = .atom start := by
  fun_cases opening start <;> simp [Opening.rest]
  all_goals omega

/-- The text that opens in this way. -/
def Opening.whole : Opening → List Char
  | .mark sign rest => sign.sigil ++ rest
  | .list rest => '(' :: rest
  | .text rest => '\x22' :: rest
  | .vector rest => '#' :: '(' :: rest
  | .bytevector rest => '#' :: 'u' :: '8' :: '(' :: rest
  | .regex rest => '#' :: '/' :: rest
  | .character rest => '#' :: '\\' :: rest
  | .constant rest => '#' :: rest
  | .atom start => start

theorem whole_opening
    (start : List Char) :
    (opening start).whole = start := by
  fun_cases opening start <;> rfl

/-- What comes next in a list or a vector. -/
inductive Upcoming
  | nothing
  | close (rest : List Char)
  | item (start : List Char)

/-- What comes next, after blanks and comments. -/
def upcoming : List Char → Upcoming
  | [] => .nothing
  | ')' :: rest => .close rest
  | start => .item start

theorem upcoming_eq_item
    {start : List Char}
    (nonempty : start ≠ [])
    (notClose : ∀ rest, start ≠ ')' :: rest) :
    upcoming start = .item start := by
  unfold upcoming
  split
  · exact (nonempty rfl).elim
  · exact (notClose _ rfl).elim
  · rfl

theorem upcoming_spec
    (start : List Char) :
    (start = [] ∧ upcoming start = .nothing) ∨
      (∃ rest, start = ')' :: rest ∧ upcoming start = .close rest) ∨
      (start ≠ [] ∧ (∀ rest, start ≠ ')' :: rest) ∧ upcoming start = .item start) := by
  fun_cases upcoming start with
  | case1 => exact .inl ⟨rfl, rfl⟩
  | case2 rest => exact .inr (.inl ⟨rest, rfl, rfl⟩)
  | case3 _ nonempty notClose => exact .inr (.inr ⟨nonempty, notClose, rfl⟩)

/-- The text after a dot that stands by itself. -/
def afterDot? : List Char → Option (List Char)
  | '.' :: rest => if endsToken rest then some rest else none
  | _ => none

theorem afterDot?_eq_some_iff
    {start rest : List Char} :
    afterDot? start = some rest ↔ start = '.' :: rest ∧ endsToken rest = true := by
  fun_cases afterDot? start with
  | case1 found ends =>
      simp only [Option.some.injEq, List.cons.injEq, true_and]
      exact ⟨fun same => ⟨same, same ▸ ends⟩, And.left⟩
  | case2 found notEnds =>
      simp only [reduceCtorEq, List.cons.injEq, true_and, false_iff]
      exact fun ⟨same, ends⟩ => notEnds (same ▸ ends)
  | case3 _ notDot =>
      simp only [reduceCtorEq, false_iff]
      exact fun ⟨same, _⟩ => notDot rest same

/-- A text literal, after its opening quote. -/
def readTextDatum (text : List Char) : Except Failure (Datum × List Char) := do
  let (characters, rest) ← readText false text
  return (.text (String.ofList characters), rest)

/-- The bytevector of data that have been read up to a closing parenthesis. -/
def bytesOf
    (text : List Char)
    (items : List Datum)
    (after : List Char) : Except Failure (Datum × List Char) :=
  match items.mapM byte? with
  | some bytes => .ok (.bytevector bytes, after)
  | none => .error ⟨.number, '#' :: 'u' :: '8' :: '(' :: text⟩

/-- The tail of a list, after which the list must be closed. -/
def closeAfter
    (tail : Datum)
    (text : List Char) : Except Failure (Datum × List Char) :=
  match upcoming (afterGap text) with
  | .close rest => .ok (tail, rest)
  | _ => .error ⟨.form, afterGap text⟩

variable {engine : Regex.Engine}

/-- A datum is read as it opens. -/
theorem readDatum_succ
    (fuel depth : Nat)
    (text : List Char) :
    readDatum (fuel + 1) depth text =
      if maxNesting ≤ depth then
        .error ⟨.nesting, text⟩
      else
        match opening (afterGap text) with
        | .mark mark rest => readMarked fuel depth mark rest
        | .list rest => readTail fuel depth false rest
        | .text rest => readTextDatum rest
        | .vector rest => do
            let (items, after) ← readItems fuel depth rest
            return (.vector items, after)
        | .bytevector rest => do
            let (items, after) ← readItems fuel depth rest
            bytesOf rest items after
        | .regex rest => readRegex rest
        | .character rest => readCharacter rest
        | .constant rest => readConstant ('#' :: rest)
        | .atom start => readAtom start := by
  rw [readDatum]
  congr 1
  generalize afterGap text = start
  split
  -- These three come after openings that begin alike, which are ruled out here.
  case h_4 | h_11 | h_12 =>
    rw [opening]
    all_goals assumption
  all_goals rfl

theorem readItems_succ
    (fuel depth : Nat)
    (text : List Char) :
    readItems (fuel + 1) depth text =
      match upcoming (afterGap text) with
      | .nothing => .error ⟨.form, []⟩
      | .close rest => .ok ([], rest)
      | .item start => do
          let (item, afterItem) ← readDatum fuel (depth + 1) start
          let (items, rest) ← readItems fuel depth afterItem
          return (item :: items, rest) := by
  rw [readItems]
  generalize afterGap text = start
  split
  case h_1 => rfl
  case h_2 => rfl
  case h_3 nonempty notClose =>
    rw [upcoming_eq_item nonempty notClose]

theorem readTail_succ
    (fuel depth : Nat)
    (started : Bool)
    (text : List Char) :
    readTail (fuel + 1) depth started text =
      match upcoming (afterGap text) with
      | .nothing => .error ⟨.form, []⟩
      | .close rest => .ok (.nil, rest)
      | .item start =>
          match afterDot? start with
          | some rest =>
              if started then do
                let (tail, afterTail) ← readDatum fuel (depth + 1) rest
                closeAfter tail afterTail
              else
                .error ⟨.form, start⟩
          | none => readElement fuel depth start := by
  rw [readTail]
  generalize afterGap text = start
  split
  case h_1 => rfl
  case h_2 => rfl
  case h_3 rest =>
    rw [upcoming_eq_item (List.cons_ne_nil _ _) (by simp)]
    simp only [afterDot?]
    cases endsToken rest
    · rfl
    · cases started
      · rfl
      · change (readDatum fuel (depth + 1) rest >>= _) = (readDatum fuel (depth + 1) rest >>= _)
        congr 1
        funext read
        obtain ⟨tail, afterTail⟩ := read
        unfold closeAfter
        dsimp only
        generalize afterGap afterTail = last
        split
        case h_1 => rfl
        case h_2 notClose =>
          cases last with
          | nil => rfl
          | cons first others => rw [upcoming_eq_item (List.cons_ne_nil _ _) notClose]
  case h_4 nonempty notClose notDot =>
    have noDot : afterDot? start = none := by
      unfold afterDot?
      split
      · exact (notDot _ rfl).elim
      · rfl
    rw [upcoming_eq_item nonempty notClose]
    simp only [noDot]

end SmallScheme.Reader
